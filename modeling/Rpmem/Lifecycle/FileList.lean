/-
# The files of a client

A process has any number of files, each with its own threads, and one
`file_list` of them, a list of `sys/queue.h` under `file_list_mutex`.
`rpmem_open` inserts the connection of a file at the head once the OPEN request
is answered, its last act before it returns; `rpmem_close` unlinks it before
anything else, with a walk that has no end but the node it looks for.

Files are named by the address of their `priv_rfile`.  An address that
`rpmem_open` or `rpmem_close` has freed may come back from the next `calloc`, so
a file of that address starts again.  The pointers run beside the files, as in
`Rpmem.Server.ResList`.
-/

import Rpmem.Lib.LinkedList
import Rpmem.Lifecycle.Balance
import Rpmem.Lifecycle.Events

namespace Rpmem

open Linked

variable {ι : Type*} [DecidableEq ι]

/-- `rpmem_open` and `rpmem_close` are both done with the address of the file. -/
def MainPc.freed : MainPc → Bool
  | .failed | .closed => true
  | _ => false

/-- A step of one file, or its address comes back from `calloc`. -/
def filesStep (x : ι → File) (l : ι × Option FileLabel) : Option (ι → File) :=
  match l.2 with
  | some a => (fileStep (x l.1) a).map (Function.update x l.1)
  | none => if (x l.1).main.freed then some (Function.update x l.1 File.initial) else none

/-- At this step `rpmem_open` inserts the file in `file_list`. -/
def File.enters (s : File) (a : FileLabel) : Bool := decide (s.main = .waitOpen ∧ a = .main true)

/-- What a step does to the pointers of `file_list`. -/
def noteFiles (fuel : ℕ) (x : ι → File) (l : ι × Option FileLabel) (_ : ι → File)
    (w : Walk (Links ι)) : Walk (Links ι) :=
  w.bind fun links =>
    match l.2 with
    | some a =>
        if (x l.1).enters a then .done (links.insertHead l.1)
        else if a = .close then links.remove fuel l.1
        else .done links
    | none => .done links

variable {s t : File} {a : FileLabel}

/-- The application's thread comes to have an open file by the insertion only. -/
theorem File.opened_of_mainStep {ok : Bool} (h : s.mainStep ok = some t) :
    t.main = .opened ↔ s.enters (.main ok) = true := by
  unfold File.mainStep at h
  cases hm : s.main with
  | opened | failed | closed => simp [hm] at h
  | closing p =>
      simp only [hm] at h
      cases p <;> simp only [File.rpmemClose, File.mainRelease, File.mainDestroy,
        Option.ite_none_right_eq_some, Option.some.injEq] at h <;>
        first
          | (subst h; simp [File.enters, hm])
          | (obtain ⟨-, rfl⟩ := h; simp [File.enters, hm])
  | waitOpen =>
      simp only [hm, Option.some.injEq] at h
      subst h
      cases ok <;> simp [File.enters, hm]
  | calloc | createEventChannel | createId | createThread | resolveAddr | postRecv | postSend
  | destroyThread | destroyEventChannel | destroyRfile =>
      have hent : s.enters (.main ok) = false := by simp [File.enters, hm]
      simp only [hm, File.mainAcquire, File.mainRelease] at h
      cases ok <;> cases h <;> simp [hent]
  | waitConnect | destroyId =>
      have hent : s.enters (.main ok) = false := by simp [File.enters, hm]
      simp only [hm, File.mainRelease] at h
      obtain ⟨-, ⟨⟩⟩ := Option.ite_none_right_eq_some.1 h
      simp [hent]
  | checkState =>
      have hent : s.enters (.main ok) = false := by simp [File.enters, hm]
      simp only [hm] at h
      obtain ⟨-, ⟨⟩⟩ := Option.ite_none_left_eq_some.1 h
      rw [hent]
      split_ifs <;> simp

/-- **Which steps open and close a file**: the insertion, the call of `rpmem_close`, and no
other. -/
theorem File.opened_step (h : fileStep s a = some t) :
    (s.enters a = true ∧ s.main ≠ .opened ∧ t.main = .opened) ∨
    (s.enters a = false ∧ a = .close ∧ s.main = .opened ∧ t.main ≠ .opened) ∨
    (s.enters a = false ∧ a ≠ .close ∧ (t.main = .opened ↔ s.main = .opened)) := by
  cases fileStep_cases h with
  | main ok _ hmain =>
      have hne : s.main ≠ .opened := by
        intro hm
        simp [File.mainStep, hm] at hmain
      have hiff := File.opened_of_mainStep hmain
      cases hent : s.enters (.main ok) with
      | true => exact .inl ⟨rfl, hne, hiff.2 hent⟩
      | false =>
          have hnot : t.main ≠ .opened := fun ht => by simp [hiff.1 ht] at hent
          exact .inr (.inr ⟨rfl, by simp, iff_of_false hnot hne⟩)
  | closed hm => exact .inr (.inl ⟨by simp [File.enters], rfl, hm, by simp⟩)
  | cm ok _ hcm =>
      have hmain : t.main = s.main := (File.cmStep_stepped hcm).2.1
      exact .inr (.inr ⟨by simp [File.enters], by simp, by rw [hmain]⟩)
  | mapped o hm =>
      exact .inr (.inr ⟨by simp [File.enters], by simp, by cases o <;> rfl⟩)
  | unmapped | gotEvent | getEventFailed | cancelled | cqExited =>
      exact .inr (.inr ⟨by simp [File.enters], by simp, Iff.rfl⟩)

/-- The pointers hold the open files, of which there are at most `n`. -/
structure FilesInv (n : ℕ) (p : (ι → File) × Walk (Links ι)) (links : Links ι) (l : List ι) :
    Prop where
  done : p.2 = .done links
  holds : links.Holds l
  length : l.length ≤ n
  mem : ∀ i, i ∈ l ↔ (p.1 i).main = .opened

variable {n fuel : ℕ} {p q : (ι → File) × Walk (Links ι)} {links : Links ι} {l : List ι}

/-- Membership in the list after one file has moved. -/
theorem FilesInv.mem_update (h : FilesInv n p links l) {i : ι} {l' : List ι}
    (hi : i ∈ l' ↔ t.main = .opened) (hl : ∀ j, j ≠ i → (j ∈ l' ↔ j ∈ l)) (j : ι) :
    j ∈ l' ↔ (Function.update p.1 i t j).main = .opened := by
  by_cases hj : j = i
  · subst hj
    rw [Function.update_self, hi]
  · rw [Function.update_of_ne hj, hl j hj, h.mem j]

/-- One step keeps the pointers on the open files. -/
theorem FilesInv.step (h : FilesInv n p links l) (hfuel : n ≤ fuel) {a : ι × Option FileLabel}
    (hs : Lts.noted filesStep (noteFiles fuel) p a = some q) :
    ∃ links' l', FilesInv (n + 1) q links' l' := by
  obtain ⟨hstep, hnote⟩ := Lts.noted_eq_some hs
  obtain ⟨i, a⟩ := a
  rw [h.done, noteFiles, Walk.bind_done] at hnote
  have hlen := h.length
  cases a with
  | none =>
      -- the address was freed, so its file was not open
      obtain ⟨hfreed, ht⟩ := Option.ite_none_right_eq_some.1 hstep
      have hne : (p.1 i).main ≠ .opened := fun hm => by simp [hm, MainPc.freed] at hfreed
      refine ⟨links, l, hnote, h.holds, by omega, ?_⟩
      rw [← Option.some.inj ht]
      have hnot : i ∉ l := mt (h.mem i).1 hne
      exact h.mem_update (iff_of_false hnot (by simp [File.initial])) fun _ _ => Iff.rfl
  | some a =>
      obtain ⟨t, ht, heq⟩ := Option.map_eq_some_iff.1 hstep
      have hupdate {l' : List ι} (hi : i ∈ l' ↔ t.main = .opened)
          (hl : ∀ j, j ≠ i → (j ∈ l' ↔ j ∈ l)) (j : ι) : j ∈ l' ↔ (q.1 j).main = .opened := by
        rw [← heq]
        exact h.mem_update hi hl j
      rcases File.opened_step ht with ⟨hent, hm, hopen⟩ | ⟨hent, rfl, hm, hopen⟩ | ⟨hent, hne, hiff⟩
      · have hnot : i ∉ l := mt (h.mem i).1 hm
        refine ⟨links.insertHead i, i :: l, hnote.trans (if_pos hent), h.holds.insertHead hnot,
          Nat.succ_le_succ hlen, hupdate (iff_of_true List.mem_cons_self hopen) fun j hj => ?_⟩
        simp [hj]
      · obtain ⟨links', hremove, hholds⟩ := h.holds.remove ((h.mem i).2 hm) (hlen.trans hfuel)
        have hnot : i ∉ l.erase i := h.holds.nodup.not_mem_erase
        refine ⟨links', l.erase i, ?_, hholds, ?_,
          hupdate (iff_of_false hnot hopen) fun j hj => List.mem_erase_of_ne hj⟩
        · rw [hnote, ← hremove]
          simp [hent]
        · have := List.length_erase_le (l := l) (a := i)
          omega
      · refine ⟨links, l, ?_, h.holds, by omega, hupdate ?_ fun _ _ => Iff.rfl⟩
        · rw [hnote]
          simp [hent, hne]
        · rw [h.mem i, hiff]

/-- A run keeps the pointers on the open files, if the walks have fuel for its steps. -/
theorem FilesInv.run {labels : List (ι × Option FileLabel)}
    (hrun : Lts.Run (Lts.noted filesStep (noteFiles fuel)) Lts.anyLabel p labels q)
    (h : FilesInv n p links l) (hfuel : n + labels.length ≤ fuel) :
    ∃ links' l', FilesInv (n + labels.length) q links' l' := by
  induction hrun generalizing n links l with
  | nil => exact ⟨links, l, h⟩
  | cons _ hs _ ih =>
      rw [List.length_cons, Nat.add_comm _ 1, ← Nat.add_assoc] at hfuel ⊢
      obtain ⟨links', l', h'⟩ := h.step (by omega) hs
      exact ih h' hfuel

/-- **`file_list` is the list of the open files.**  Over any interleaving of the threads of any
number of files, with any outcomes of their calls and addresses used again and again, the walk of
`rpmem_close` finds the file it unlinks: the pointers from `slh_first` lead through each file
that `rpmem_open` has returned and `rpmem_close` has not been called on, once, and through
nothing else.  Closing any other file follows a null pointer. -/
theorem file_list_is_open_files {labels : List (ι × Option FileLabel)}
    (hrun : Lts.Run (Lts.noted filesStep (noteFiles fuel)) Lts.anyLabel
      ((fun _ => File.initial), .done Links.empty) labels q)
    (hfuel : labels.length ≤ fuel) :
    ∃ links l, q.2 = .done links ∧ links.Holds l ∧ l.Nodup ∧
      (∀ i, i ∈ l ↔ (q.1 i).main = .opened) ∧
      ∀ i, (q.1 i).main ≠ .opened → links.remove (fuel + 1) i = .fault := by
  have hstart :
      FilesInv 0 ((fun _ => File.initial), .done Links.empty) (Links.empty : Links ι) [] :=
    ⟨rfl, Links.holds_empty, le_rfl, fun i => by simp [File.initial]⟩
  obtain ⟨links, l, h⟩ := hstart.run hrun (by omega)
  have hlen := h.length
  refine ⟨links, l, h.done, h.holds, h.holds.nodup, h.mem, fun i hi => ?_⟩
  exact h.holds.remove_of_not_mem (mt (h.mem i).1 hi) (by omega)

/-- A file is opened. -/
def opensFile : List FileLabel := connecting ++ List.replicate 5 (.main true)

/-- One file is opened and closed and its address used again; another is opened meanwhile. -/
theorem file_list_is_open_files_two :
    ∃ q : (Bool → File) × Walk (Links Bool),
      ((q.1 false).main = .calloc ∧ (q.1 true).main = .opened) ∧
      ∃ links l, q.2 = .done links ∧ links.Holds l ∧ l.Nodup ∧
        (∀ i, i ∈ l ↔ (q.1 i).main = .opened) ∧
        ∀ i, (q.1 i).main ≠ .opened → links.remove 101 i = .fault := by
  obtain ⟨q, hq, htest⟩ := Lts.exists_run_of_exec (Lts.noted filesStep (noteFiles 100)) Lts.anyLabel
    (s := ((fun _ : Bool => File.initial), .done Links.empty))
    (l := opensFile.map (fun a => (false, some a)) ++ opensFile.map (fun a => (true, some a)) ++
      [(false, some .close), (false, some (.main true)), (false, some .cmCancelled)] ++
      List.replicate 8 (false, some (.main true)) ++ [(false, none)])
    (p := fun q => decide ((q.1 false).main = .calloc ∧ (q.1 true).main = .opened)) (by decide)
  exact ⟨q, of_decide_eq_true htest, file_list_is_open_files hq (by decide)⟩

end Rpmem
