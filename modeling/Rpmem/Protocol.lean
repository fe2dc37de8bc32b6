/-
# The wire protocol

`rpmem_protocol.h` and `rpmem_protocol.c`.  Every command is a 48-byte buffer
(`RPMEM_CMD_SIZE`), overlaid by one struct per message kind; all fields are
big-endian:

| message | offset 0 | offset 4 | offset 8 |
| --- | --- | --- | --- |
| `OPEN_REQ`, `CLOSE_REQ` | opcode | | |
| `MAP_REQ` | opcode | `len` | |
| `UNMAP_REQ`, `COMMIT_REQ` | opcode | `len` | `remote_addr` (64 bits) |
| `OPEN_RSP` | opcode | `size` | |
| `CLOSE_RSP`, `UNMAP_RSP`, `COMMIT_RSP` | opcode | `ret` | |
| `MAP_RSP` | opcode | `rkey` | `remote_addr` (64 bits) |

The `pack_*` functions store the fields of their struct and nothing else; the
`unpack_*` functions check the opcode and write through their output pointers
only when it matches, so they are modelled as functions of the old outputs.
A request has no `unpack_*` function: the server dispatches on the opcode in
`rpmem_rcv_completion` and each handler reads its own fields.

A C `int` and a `uint32_t` are both `BitVec 32`: the conversions between them
that the code makes keep the bits.
-/

import Rpmem.Lib.BigEndian

namespace Rpmem

open BigEndian

/-- C `int`: 32 bits, two's complement. -/
abbrev CInt := BitVec 32

/-- `struct rpmem_cmd`, the buffer of `RPMEM_CMD_SIZE` bytes every request and response is
overlaid on. -/
abbrev Cmd := Bytes 48

/-- The buffer after `memset(cmd, 0, RPMEM_CMD_SIZE)`. -/
def Cmd.zero : Cmd := fun _ => 0

/-- `enum rpmem_opcode`, less its end marker `RPMEM_CMD_LAST`. -/
inductive RpmemOpcode
  | openReq | openRsp | closeReq | closeRsp | mapReq | mapRsp
  | unmapReq | unmapRsp | commitReq | commitRsp
  deriving DecidableEq, Repr

/-- The value of an opcode on the wire. -/
def RpmemOpcode.code : RpmemOpcode → BitVec 32
  | .openReq => 0
  | .openRsp => 1
  | .closeReq => 2
  | .closeRsp => 3
  | .mapReq => 4
  | .mapRsp => 5
  | .unmapReq => 6
  | .unmapRsp => 7
  | .commitReq => 8
  | .commitRsp => 9

/-- `EINVAL`. -/
def einval : CInt := 22

/-! ### Packing -/

/-- Store an opcode. -/
def packOpcode (op : RpmemOpcode) (b : Cmd) : Cmd := putBits b 0 op.code

/-- Store an opcode and one 32-bit field. -/
def packWord (op : RpmemOpcode) (v : BitVec 32) (b : Cmd) : Cmd := putBits (packOpcode op b) 4 v

/-- Store an opcode, a 32-bit field and a 64-bit field. -/
def packWordAddr (op : RpmemOpcode) (v : BitVec 32) (a : BitVec 64) (b : Cmd) : Cmd :=
  putBits (packWord op v b) 8 a

def packOpenReq (req : Cmd) : Cmd := packOpcode .openReq req

def packOpenRsp (size : CInt) (rsp : Cmd) : Cmd := packWord .openRsp size rsp

def packCloseReq (req : Cmd) : Cmd := packOpcode .closeReq req

def packCloseRsp (ret : CInt) (rsp : Cmd) : Cmd := packWord .closeRsp ret rsp

def packMapReq (req : Cmd) (len : CInt) : Cmd := packWord .mapReq len req

def packMapRsp (rsp : Cmd) (rkey : BitVec 32) (remoteAddr : BitVec 64) : Cmd :=
  packWordAddr .mapRsp rkey remoteAddr rsp

def packUnmapReq (req : Cmd) (len : CInt) (remoteAddr : BitVec 64) : Cmd :=
  packWordAddr .unmapReq len remoteAddr req

def packUnmapRsp (rsp : Cmd) (ret : CInt) : Cmd := packWord .unmapRsp ret rsp

def packCommitReq (req : Cmd) (len : CInt) (remoteAddr : BitVec 64) : Cmd :=
  packWordAddr .commitReq len remoteAddr req

def packCommitRsp (rsp : Cmd) (ret : CInt) : Cmd := packWord .commitRsp ret rsp

/-! ### Unpacking -/

/-- The opcode field, `ntohl(cmd->opcode)`. -/
def opcodeField (b : Cmd) : BitVec 32 := getBits 32 b 0

/-- The 32-bit field after the opcode: `len`, `size`, `ret` or `rkey`. -/
def wordField (b : Cmd) : BitVec 32 := getBits 32 b 4

/-- The 64-bit field `remote_addr`. -/
def addrField (b : Cmd) : BitVec 64 := getBits 64 b 8

/-- Check the opcode, then write `*out`.  The return value, and `*out` after
the call. -/
def unpackWord (op : RpmemOpcode) (rsp : Cmd) (out : CInt) : CInt × CInt :=
  if opcodeField rsp ≠ op.code then (-einval, out) else (0, wordField rsp)

def unpackOpenRsp (rsp : Cmd) (size : CInt) : CInt × CInt := unpackWord .openRsp rsp size

def unpackCloseRsp (rsp : Cmd) (ret : CInt) : CInt × CInt := unpackWord .closeRsp rsp ret

def unpackMapRsp (rsp : Cmd) (rkey : BitVec 32) (remoteAddr : BitVec 64) :
    CInt × BitVec 32 × BitVec 64 :=
  if opcodeField rsp ≠ RpmemOpcode.mapRsp.code then (-einval, rkey, remoteAddr)
  else (0, wordField rsp, addrField rsp)

def unpackUnmapRsp (rsp : Cmd) (ret : CInt) : CInt × CInt := unpackWord .unmapRsp rsp ret

def unpackCommitRsp (rsp : Cmd) (ret : CInt) : CInt × CInt := unpackWord .commitRsp rsp ret

/-! ### Requests as the server reads them -/

/-- The five requests the server knows. -/
inductive ReqKind
  | openReq | closeReq | mapReq | unmapReq | commitReq
  deriving DecidableEq, Repr

/-- The opcode of a request. -/
def ReqKind.opcode : ReqKind → RpmemOpcode
  | .openReq => .openReq
  | .closeReq => .closeReq
  | .mapReq => .mapReq
  | .unmapReq => .unmapReq
  | .commitReq => .commitReq

/-- The `switch` of `rpmem_rcv_completion`; `none` is its `default` branch. -/
def requestKind (req : Cmd) : Option ReqKind :=
  if opcodeField req = RpmemOpcode.openReq.code then some .openReq
  else if opcodeField req = RpmemOpcode.closeReq.code then some .closeReq
  else if opcodeField req = RpmemOpcode.mapReq.code then some .mapReq
  else if opcodeField req = RpmemOpcode.unmapReq.code then some .unmapReq
  else if opcodeField req = RpmemOpcode.commitReq.code then some .commitReq
  else none

/-- A request with the fields its handler reads. -/
inductive Request
  | openReq
  | closeReq
  | mapReq (len : CInt)
  | unmapReq (len : CInt) (remoteAddr : BitVec 64)
  | commitReq (len : CInt) (remoteAddr : BitVec 64)
  deriving DecidableEq, Repr

def Request.kind : Request → ReqKind
  | .openReq => .openReq
  | .closeReq => .closeReq
  | .mapReq _ => .mapReq
  | .unmapReq _ _ => .unmapReq
  | .commitReq _ _ => .commitReq

/-- What the server acts on: the dispatch, then the handler's own fields. -/
def decodeRequest (req : Cmd) : Option Request :=
  (requestKind req).map fun
    | .openReq => .openReq
    | .closeReq => .closeReq
    | .mapReq => .mapReq (wordField req)
    | .unmapReq => .unmapReq (wordField req) (addrField req)
    | .commitReq => .commitReq (wordField req) (addrField req)

/-- The client's packer of a request. -/
def Request.pack : Request → Cmd → Cmd
  | .openReq, b => packOpenReq b
  | .closeReq, b => packCloseReq b
  | .mapReq len, b => packMapReq b len
  | .unmapReq len addr, b => packUnmapReq b len addr
  | .commitReq len addr, b => packCommitReq b len addr

/-- The bytes of a request's own fields, from offset `0`. -/
def Request.size : Request → ℕ
  | .openReq | .closeReq => 4
  | .mapReq _ => 8
  | .unmapReq _ _ | .commitReq _ _ => 16

/-! ### Responses, one family over the five kinds -/

/-- The five responses. -/
inductive RspKind
  | openRsp | closeRsp | mapRsp | unmapRsp | commitRsp
  deriving DecidableEq, Repr

/-- The opcode of a response. -/
def RspKind.opcode : RspKind → RpmemOpcode
  | .openRsp => .openRsp
  | .closeRsp => .closeRsp
  | .mapRsp => .mapRsp
  | .unmapRsp => .unmapRsp
  | .commitRsp => .commitRsp

/-- The fields of a response besides its opcode. -/
def RspKind.Fields : RspKind → Type
  | .openRsp | .closeRsp | .unmapRsp | .commitRsp => CInt
  | .mapRsp => BitVec 32 × BitVec 64

/-- The bytes of a response's own fields, from offset `0`. -/
def RspKind.size : RspKind → ℕ
  | .openRsp | .closeRsp | .unmapRsp | .commitRsp => 8
  | .mapRsp => 16

/-- The server's packer of a response. -/
def packRsp : (k : RspKind) → k.Fields → Cmd → Cmd
  | .openRsp, size, b => packOpenRsp size b
  | .closeRsp, ret, b => packCloseRsp ret b
  | .mapRsp, (rkey, addr), b => packMapRsp b rkey addr
  | .unmapRsp, ret, b => packUnmapRsp b ret
  | .commitRsp, ret, b => packCommitRsp b ret

/-- The client's unpacker of a response, as a function of the old outputs. -/
def unpackRsp : (k : RspKind) → Cmd → k.Fields → CInt × k.Fields
  | .openRsp, b, out => unpackOpenRsp b out
  | .closeRsp, b, out => unpackCloseRsp b out
  | .mapRsp, b, (rkey, addr) => unpackMapRsp b rkey addr
  | .unmapRsp, b, out => unpackUnmapRsp b out
  | .commitRsp, b, out => unpackCommitRsp b out

/-! ### What packing does to the three fields -/

section Fields

variable (op : RpmemOpcode) (v : BitVec 32) (a : BitVec 64) (b : Cmd)

@[simp] theorem opcodeField_packOpcode : opcodeField (packOpcode op b) = op.code :=
  getBits_putBits (by decide) b op.code (by decide)

@[simp] theorem opcodeField_packWord : opcodeField (packWord op v b) = op.code := by
  rw [packWord, opcodeField, getBits_putBits_of_disjoint _ _ (by decide)]
  exact opcodeField_packOpcode op b

@[simp] theorem wordField_packWord : wordField (packWord op v b) = v :=
  getBits_putBits (by decide) _ v (by decide)

@[simp] theorem opcodeField_packWordAddr : opcodeField (packWordAddr op v a b) = op.code := by
  rw [packWordAddr, opcodeField, getBits_putBits_of_disjoint _ _ (by decide)]
  exact opcodeField_packWord op v b

@[simp] theorem wordField_packWordAddr : wordField (packWordAddr op v a b) = v := by
  rw [packWordAddr, wordField, getBits_putBits_of_disjoint _ _ (by decide)]
  exact wordField_packWord op v b

@[simp] theorem addrField_packWordAddr : addrField (packWordAddr op v a b) = a :=
  getBits_putBits (by decide) _ a (by decide)

theorem packOpcode_apply {i : Fin 48} (hi : 4 ≤ i.val) : packOpcode op b i = b i :=
  putBits_apply_of_not_mem b op.code (.inr hi)

theorem packWord_apply {i : Fin 48} (hi : 8 ≤ i.val) : packWord op v b i = b i := by
  rw [packWord, putBits_apply_of_not_mem _ v (.inr hi), packOpcode_apply op b (by omega)]

theorem packWordAddr_apply {i : Fin 48} (hi : 16 ≤ i.val) : packWordAddr op v a b i = b i := by
  rw [packWordAddr, putBits_apply_of_not_mem _ a (.inr hi), packWord_apply op v b (by omega)]

variable {op b}

/-- Storing the opcode a buffer already has changes nothing. -/
theorem packOpcode_self (h : opcodeField b = op.code) : packOpcode op b = b := by
  rw [packOpcode, ← h]
  exact putBits_getBits (by decide) b 0

theorem packWord_self (h : opcodeField b = op.code) : packWord op (wordField b) b = b := by
  rw [packWord, packOpcode_self h]
  exact putBits_getBits (by decide) b 4

theorem packWordAddr_self (h : opcodeField b = op.code) :
    packWordAddr op (wordField b) (addrField b) b = b := by
  rw [packWordAddr, packWord_self h]
  exact putBits_getBits (by decide) b 8

end Fields

/-- The opcode field read as bytes: a code is three zero bytes and one small byte. -/
theorem opcodeField_eq_iff (op : RpmemOpcode) (b : Cmd) :
    opcodeField b = op.code ↔
      b 0 = 0 ∧ b 1 = 0 ∧ b 2 = 0 ∧ b 3 = UInt8.ofNat op.code.toNat := by
  have hcode : op.code.toNat < 10 := by cases op <;> decide
  have hread : readBE b 0 4 =
      (((b 0).toNat * 256 + (b 1).toNat) * 256 + (b 2).toNat) * 256 + (b 3).toNat := by
    simp [readBE, byte]
  have h0 := UInt8.toNat_lt (b 0)
  have h1 := UInt8.toNat_lt (b 1)
  have h2 := UInt8.toNat_lt (b 2)
  have h3 := UInt8.toNat_lt (b 3)
  rw [opcodeField, getBits, ← BitVec.toNat_inj, BitVec.toNat_ofNat, hread]
  simp only [← UInt8.toNat_inj, UInt8.toNat_ofNat', UInt8.toNat_zero]
  omega

/-! ### Requests -/

/-- The dispatch finds a kind exactly when the opcode is that kind's. -/
theorem requestKind_eq_some_iff (req : Cmd) (k : ReqKind) :
    requestKind req = some k ↔ opcodeField req = k.opcode.code := by
  unfold requestKind
  cases k <;> simp only [ReqKind.opcode] <;> split_ifs with h0 h1 h2 h3 h4 <;>
    simp_all [RpmemOpcode.code]

theorem requestKind_pack (m : Request) (b : Cmd) : requestKind (m.pack b) = some m.kind := by
  rw [requestKind_eq_some_iff]
  cases m <;> simp [Request.pack, Request.kind, ReqKind.opcode, packOpenReq, packCloseReq,
    packMapReq, packUnmapReq, packCommitReq]

/-- **The server reads back the request the client packed**, whatever was in
the buffer before. -/
theorem decodeRequest_pack (m : Request) (b : Cmd) : decodeRequest (m.pack b) = some m := by
  rw [decodeRequest, requestKind_pack]
  cases m <;> simp [Request.pack, Request.kind, packMapReq, packUnmapReq, packCommitReq]

/-- Packing a request stores its own fields only. -/
theorem Request.pack_apply (m : Request) (b : Cmd) {i : Fin 48} (hi : m.size ≤ i.val) :
    m.pack b i = b i := by
  cases m with
  | openReq | closeReq => exact packOpcode_apply _ b hi
  | mapReq len => exact packWord_apply _ len b hi
  | unmapReq len addr | commitReq len addr => exact packWordAddr_apply _ len addr b hi

/-- Packing what the server read restores the buffer. -/
theorem Request.pack_of_decodeRequest {b : Cmd} {m : Request} (h : decodeRequest b = some m) :
    m.pack b = b := by
  obtain ⟨k, hk, rfl⟩ := Option.map_eq_some_iff.1 h
  rw [requestKind_eq_some_iff] at hk
  cases k with
  | openReq | closeReq => exact packOpcode_self hk
  | mapReq => exact packWord_self hk
  | unmapReq | commitReq => exact packWordAddr_self hk

/-! ### Responses -/

section Words

variable {op : RpmemOpcode} {b : Cmd} (v out : CInt)

theorem unpackWord_of_eq (h : opcodeField b = op.code) : unpackWord op b out = (0, wordField b) := by
  rw [unpackWord, if_neg (not_not.2 h)]

theorem unpackMapRsp_of_eq (h : opcodeField b = RpmemOpcode.mapRsp.code) (rkey : BitVec 32)
    (addr : BitVec 64) : unpackMapRsp b rkey addr = (0, wordField b, addrField b) := by
  rw [unpackMapRsp, if_neg (not_not.2 h)]

theorem unpackWord_packWord : unpackWord op (packWord op v b) out = (0, v) := by
  rw [unpackWord_of_eq out (opcodeField_packWord op v b), wordField_packWord]

theorem unpackMapRsp_packMapRsp (rkey rkey' : BitVec 32) (addr addr' : BitVec 64) :
    unpackMapRsp (packMapRsp b rkey addr) rkey' addr' = (0, rkey, addr) := by
  rw [packMapRsp, unpackMapRsp_of_eq (opcodeField_packWordAddr ..), wordField_packWordAddr,
    addrField_packWordAddr]

end Words

theorem unpackRsp_reject (k : RspKind) (b : Cmd) (out : k.Fields)
    (h : opcodeField b ≠ k.opcode.code) : unpackRsp k b out = (-einval, out) := by
  cases k <;> exact if_pos h

/-- **An unpacker accepts exactly its own opcode.** -/
theorem unpackRsp_eq_zero_iff (k : RspKind) (b : Cmd) (out : k.Fields) :
    (unpackRsp k b out).1 = 0 ↔ opcodeField b = k.opcode.code := by
  constructor
  · intro h
    by_contra hne
    rw [unpackRsp_reject k b out hne] at h
    have : -einval ≠ 0 := by decide
    exact this h
  · intro h
    cases k with
    | openRsp | closeRsp | unmapRsp | commitRsp => exact congrArg Prod.fst (unpackWord_of_eq out h)
    | mapRsp => exact congrArg Prod.fst (unpackMapRsp_of_eq h out.1 out.2)

/-- **The client reads back the response the server packed**, whatever was in
the buffer and in the outputs before. -/
theorem unpackRsp_packRsp (k : RspKind) (f : k.Fields) (b : Cmd) (out : k.Fields) :
    unpackRsp k (packRsp k f b) out = (0, f) := by
  cases k with
  | openRsp => exact @unpackWord_packWord .openRsp b f out
  | closeRsp => exact @unpackWord_packWord .closeRsp b f out
  | mapRsp => exact unpackMapRsp_packMapRsp f.1 out.1 f.2 out.2
  | unmapRsp => exact @unpackWord_packWord .unmapRsp b f out
  | commitRsp => exact @unpackWord_packWord .commitRsp b f out

theorem opcodeField_packRsp (k : RspKind) (f : k.Fields) (b : Cmd) :
    opcodeField (packRsp k f b) = k.opcode.code :=
  (unpackRsp_eq_zero_iff k _ f).1 (congrArg Prod.fst (unpackRsp_packRsp k f b f))

/-- Packing a response stores its own fields only. -/
theorem packRsp_apply (k : RspKind) (f : k.Fields) (b : Cmd) {i : Fin 48} (hi : k.size ≤ i.val) :
    packRsp k f b i = b i := by
  cases k with
  | openRsp | closeRsp | unmapRsp | commitRsp => exact packWord_apply _ f b hi
  | mapRsp => exact packWordAddr_apply _ f.1 f.2 b hi

/-- Packing what an unpacker accepted restores the buffer. -/
theorem packRsp_unpackRsp (k : RspKind) (b : Cmd) (out : k.Fields)
    (h : (unpackRsp k b out).1 = 0) : packRsp k (unpackRsp k b out).2 b = b := by
  rw [unpackRsp_eq_zero_iff] at h
  cases k with
  | openRsp | closeRsp | unmapRsp | commitRsp =>
      exact (congrArg (fun r => packWord _ r.2 b) (unpackWord_of_eq out h)).trans (packWord_self h)
  | mapRsp =>
      exact (congrArg (fun r : CInt × BitVec 32 × BitVec 64 => packMapRsp b r.2.1 r.2.2)
        (unpackMapRsp_of_eq h out.1 out.2)).trans (packWordAddr_self h)

/-- **The wire format round-trips.**  Every request is decoded by the server's
dispatch and the handlers' own reads to the fields the client packed, every
response by its unpacker to the fields the server packed; packing touches the
message's own fields only; an unpacker accepts a buffer exactly when its first
four bytes are the big-endian code of its response, returns `-EINVAL` with the
outputs untouched otherwise; and packing again what was accepted restores the
buffer byte for byte. -/
theorem wire_format_roundtrip :
    (∀ (m : Request) (b : Cmd), decodeRequest (m.pack b) = some m ∧
      ∀ i : Fin 48, m.size ≤ i.val → m.pack b i = b i) ∧
    (∀ (b : Cmd) (m : Request), decodeRequest b = some m → m.pack b = b) ∧
    (∀ (k : RspKind) (f : k.Fields) (b : Cmd) (out : k.Fields),
      unpackRsp k (packRsp k f b) out = (0, f) ∧
        ∀ i : Fin 48, k.size ≤ i.val → packRsp k f b i = b i) ∧
    (∀ (k : RspKind) (b : Cmd) (out : k.Fields),
      ((unpackRsp k b out).1 = 0 ↔
        b 0 = 0 ∧ b 1 = 0 ∧ b 2 = 0 ∧ b 3 = UInt8.ofNat k.opcode.code.toNat) ∧
      ((unpackRsp k b out).1 ≠ 0 → unpackRsp k b out = (-einval, out)) ∧
      ((unpackRsp k b out).1 = 0 → packRsp k (unpackRsp k b out).2 b = b)) := by
  refine ⟨fun m b => ⟨decodeRequest_pack m b, fun i hi => m.pack_apply b hi⟩,
    fun b m h => Request.pack_of_decodeRequest h,
    fun k f b out => ⟨unpackRsp_packRsp k f b out, fun i hi => packRsp_apply k f b hi⟩,
    fun k b out => ⟨?_, fun h => ?_, packRsp_unpackRsp k b out⟩⟩
  · rw [unpackRsp_eq_zero_iff, opcodeField_eq_iff]
  · rw [Ne, unpackRsp_eq_zero_iff] at h
    exact unpackRsp_reject k b out h

end Rpmem
