import Mathlib.Data.List.Induction
import ShapeRules.Command.Files
import ShapeRules.Proofs.Traversal

/-!
# Putting a file at a place

A file is put at a place where no directory is. Other places keep what they have. A path is walked
step by step through directories, and it never goes on behind a file, so a path that does not lead
to the new file leads to the same as before.

## Main definitions

* `Files.IsFree`: a place where a file can be put
* `Files.Put`: contents were put under a path, and nothing else changed

## Main results

* `Files.IsFree.walk_put_iff`: a path leads to the same as before, unless it leads to the new file
* `Files.put_of_target`: where contents can be put under a path, nothing else changes
* `Files.move_put_eq_ok_iff`: a new file that is moved under a path is as if it was put there
-/

namespace ShapeRules.Command.Files

variable {fs : Files} {place : List String}

/-! ## Places -/

/-- **A place where a file can be put:** it is not the root, and no directory is there. -/
structure IsFree (fs : Files) (place : List String) : Prop where
  below : place ≠ []
  vacant : fs.node? place ≠ some .directory

theorem isDirectory_iff : fs.isDirectory place ↔ fs.node? place = some .directory := by
  rw [isDirectory]
  split
  next h => exact iff_of_true rfl h
  next h => exact iff_of_false (by simp) h

/-- The root is never new. -/
theorem isFree_of_node?_eq_none (h : fs.node? place = none) : fs.IsFree place := by
  refine ⟨?_, by simp [h]⟩
  rintro rfl
  cases h

/-- The file is at its place, and other places have what they had. -/
theorem node?_put (h : place ≠ []) (contents : ByteArray) (other : List String) :
    (fs.put place contents).node? other =
      if other = place then some (.file contents) else fs.node? other := by
  rw [node?, node?, put, FiniteMap.get?_insert]
  by_cases hroot : other = []
  · rw [if_pos hroot, if_pos hroot, if_neg fun he => h (he.symm.trans hroot)]
  · rw [if_neg hroot, if_neg hroot]

/-- A new file that is removed again leaves nothing behind. -/
theorem remove_put (h : fs.node? place = none) (contents : ByteArray) :
    (fs.put place contents).remove place = fs := by
  have hget : fs.nodes.get? place = none := by
    rwa [node?, if_neg (isFree_of_node?_eq_none h).below] at h
  rw [remove, put, FiniteMap.erase_insert hget]

/-- What was put first at a place does not matter. -/
theorem put_put (contents contents' : ByteArray) :
    (fs.put place contents).put place contents' = fs.put place contents' := by
  rw [put, put, FiniteMap.insert_insert]
  rfl

/-! ## Walking -/

theorem walk_concat_eq_ok_iff {start path : List String} {s : String} {q : Place} :
    fs.walk start (path ++ [s]) = .ok q ↔
      ∃ p, fs.walk start path = .ok p ∧ fs.step p s = .ok q := by
  have hwalk : fs.walk start (path ++ [s]) = fs.walk start path >>= (fs.step · s) := by
    simp [walk, List.foldlM_append]
  rw [hwalk, Except.bind_eq_ok_iff]

namespace IsFree

variable (h : fs.IsFree place) (contents : ByteArray)
include h

/-- **The entries of a directory are the same as before,** apart from the new file. -/
theorem entry_put_iff {parent : List String} {s : String} {p : Place}
    (hp : ∀ t, p ≠ .file place t) :
    (fs.put place contents).entry parent s = .ok p ↔ fs.entry parent s = .ok p := by
  rw [entry, entry, node?_put h.below]
  by_cases hplace : parent ++ [s] = place
  · -- a file is there now, and there was none or another one, but no directory
    rw [if_pos hplace, hplace]
    split
    · exact Iff.rfl
    · have hvacant := h.vacant
      cases hnode : fs.node? place with
      | none => simp [Ne.symm (hp contents)]
      | some node =>
        cases node with
        | file t => simp [Ne.symm (hp contents), Ne.symm (hp t)]
        | directory => exact absurd hnode hvacant
  · rw [if_neg hplace]

theorem step_put_iff {p q : Place} {s : String} (hq : ∀ t, q ≠ .file place t) :
    (fs.put place contents).step p s = .ok q ↔ fs.step p s = .ok q := by
  cases p with
  | file other t => exact Iff.rfl
  | directory parent =>
    rw [step, step]
    split
    · exact Iff.rfl
    · split
      · exact Iff.rfl
      · exact h.entry_put_iff contents hq

/-- **A path leads to the same as before,** unless it leads to the new file. -/
theorem walk_put_iff {start path : List String} {p : Place} (hp : ∀ t, p ≠ .file place t) :
    (fs.put place contents).walk start path = .ok p ↔ fs.walk start path = .ok p := by
  induction path using List.reverseRecOn generalizing p with
  | nil => exact Iff.rfl
  | append_singleton path s ih =>
    rw [walk_concat_eq_ok_iff, walk_concat_eq_ok_iff]
    refine exists_congr fun q => ?_
    -- no path goes on behind a file
    cases q with
    | file other t => simp [step]
    | directory parent => rw [ih (by simp), h.step_put_iff contents hp]

/-- The places where a file can go are the same as before. -/
theorem child_put (name : String) (p : Place) :
    (fs.put place contents).child name p = fs.child name p := by
  cases p with
  | file other t => rfl
  | directory parent =>
    have hdirectory : (fs.put place contents).isDirectory (parent ++ [name]) =
        fs.isDirectory (parent ++ [name]) := by
      rw [Bool.eq_iff_iff, isDirectory_iff, isDirectory_iff, node?_put h.below]
      by_cases hplace : parent ++ [name] = place
      · simp [hplace, h.vacant]
      · rw [if_neg hplace]
    rw [child, child, hdirectory]

theorem target_put_iff {path : String} {other : List String} :
    (fs.put place contents).target path = .ok other ↔ fs.target path = .ok other := by
  rw [target, target]
  split
  · exact Iff.rfl
  · split
    · rw [Except.bind_eq_ok_iff, Except.bind_eq_ok_iff]
      refine exists_congr fun p => ?_
      -- only directories have places for files
      cases p with
      | file other t => simp [child]
      | directory parent =>
        rw [h.child_put, h.walk_put_iff contents (by simp)]
        exact Iff.rfl
    · exact Iff.rfl

end IsFree

/-! ## Putting contents under a path -/

/-- **Contents were put under a path and nothing else changed:** the path leads to a file with the
contents, every other place has what it had, and what is not at that place is found under the same
paths as before. -/
structure Put (before : Files) (path : String) (contents : ByteArray) (place : List String)
    (after : Files) : Prop where
  leads : after.find path = .ok (.file place contents)
  nodes : ∀ other, after.node? other =
    if other = place then some (.file contents) else before.node? other
  paths : ∀ other p, (∀ t, p ≠ .file place t) →
    (after.find other = .ok p ↔ before.find other = .ok p)

theorem find_eq_ok_iff {path : String} {p : Place} :
    fs.find path = .ok p ↔
      path.utf8ByteSize ≤ maxPathBytes ∧ fs.walk (fs.start path) (steps path) = .ok p := by
  rw [find]
  split
  next hlong => simp [Nat.not_le.2 hlong]
  next hshort => simp [Nat.not_lt.1 hshort]

theorem child_eq_ok_iff {name : String} {p : Place} : fs.child name p = .ok place ↔
    ∃ parent, p = .directory parent ∧ isName name ∧ place = parent ++ [name] ∧ fs.IsFree place := by
  cases p with
  | file other t => simp [child]
  | directory parent =>
    rw [child]
    split
    next hno =>
      refine iff_of_false (by simp) ?_
      rintro ⟨_, he, hname, rfl, hfree⟩
      cases he
      rw [hname, Bool.not_true, Bool.false_or, isDirectory_iff] at hno
      exact hfree.vacant hno
    next hyes =>
      rw [Bool.or_eq_true, Bool.not_eq_true', isDirectory_iff, not_or, Bool.not_eq_false] at hyes
      constructor
      · intro h
        obtain rfl := Except.ok.inj h
        exact ⟨parent, rfl, hyes.1, rfl, ⟨by simp, hyes.2⟩⟩
      · rintro ⟨_, he, -, rfl, -⟩
        cases he
        rfl

/-- A path under which a file can go leads to its directory, apart from its last step. -/
theorem target_eq_ok_iff {path : String} :
    fs.target path = .ok place ↔ path.utf8ByteSize ≤ maxPathBytes ∧
      ∃ parents parent name, steps path = parents ++ [name] ∧
        fs.walk (fs.start path) parents = .ok (.directory parent) ∧ isName name ∧
        place = parent ++ [name] ∧ fs.IsFree place := by
  rw [target]
  split
  next hlong => simp [Nat.not_le.2 hlong]
  next hshort =>
    rw [and_iff_right (Nat.not_lt.1 hshort)]
    rcases List.eq_nil_or_concat (steps path) with hnil | ⟨parents, name, hsteps⟩
    · simp [hnil]
    · rw [List.concat_eq_append] at hsteps
      simp only [hsteps, List.getLast?_concat, List.dropLast_concat, Except.bind_eq_ok_iff,
        child_eq_ok_iff]
      constructor
      · rintro ⟨p, hwalk, parent, rfl, h⟩
        exact ⟨parents, parent, name, rfl, hwalk, h⟩
      · rintro ⟨parents', parent, name', he, hwalk, h⟩
        obtain ⟨rfl, hname⟩ := List.append_inj' he rfl
        obtain rfl := List.singleton_inj.1 hname
        exact ⟨_, hwalk, parent, rfl, h⟩

/-- A name is a step down. -/
theorem step_of_isName {parent : List String} {name : String} (h : isName name) :
    fs.step (.directory parent) name = fs.entry parent name := by
  simp only [isName, List.mem_cons, List.not_mem_nil, or_false, not_or, Bool.and_eq_true,
    decide_eq_true_iff] at h
  obtain ⟨⟨⟨hempty, hself, hup⟩, -⟩, -⟩ := h
  rw [step, if_neg (by simp [hempty, hself]), if_neg hup]

/-- **Where contents can be put under a path, nothing else changes.** -/
theorem put_of_target {path : String} (h : fs.target path = .ok place) (contents : ByteArray) :
    fs.Put path contents place (fs.put place contents) := by
  obtain ⟨hpath, parents, parent, name, hsteps, hparent, hname, rfl, hfree⟩ := target_eq_ok_iff.1 h
  refine ⟨?_, node?_put hfree.below contents, fun other p hp => ?_⟩
  · rw [find_eq_ok_iff, hsteps, walk_concat_eq_ok_iff]
    refine ⟨hpath, _, (hfree.walk_put_iff contents (by simp)).2 hparent, ?_⟩
    have hfits : ¬ maxNameBytes < name.utf8ByteSize := by
      rw [isName, Bool.and_eq_true, decide_eq_true_iff] at hname
      exact Nat.not_lt.2 hname.2
    rw [step_of_isName hname, entry, if_neg hfits, node?_put hfree.below, if_pos rfl]
  · rw [find_eq_ok_iff, find_eq_ok_iff, hfree.walk_put_iff contents hp]
    exact Iff.rfl

/-! ## Drafts -/

/-- The draft is a new file. -/
theorem node?_eq_none_of_draftPlace {names : List String} {path : String}
    (h : fs.draftPlace names path = .ok place) : fs.node? place = none := by
  obtain ⟨p, -, h⟩ := Except.bind_eq_ok_iff.1 h
  cases p with
  | file other t => cases h
  | directory parent =>
    rw [fresh] at h
    split at h
    next name hname =>
      obtain rfl := Except.ok.inj h
      have hfound := List.find?_some hname
      rw [Bool.and_eq_true, Option.isNone_iff_eq_none] at hfound
      exact hfound.2
    next => cases h

/-- **A new file that is moved under a path** is as if it was put there. -/
theorem move_put_eq_ok_iff (h : fs.node? place = none) {contents : ByteArray} {path : String}
    {after : Files} :
    (fs.put place contents).move place path = .ok after ↔
      ∃ target, fs.target path = .ok target ∧ after = fs.put target contents := by
  have hfree := isFree_of_node?_eq_none h
  rw [move, node?_put hfree.below, if_pos rfl, remove_put h]
  constructor
  · intro hmove
    cases htarget : (fs.put place contents).target path with
    | error fault =>
      rw [htarget] at hmove
      cases hmove
    | ok target =>
      rw [htarget] at hmove
      exact ⟨target, (hfree.target_put_iff contents).1 htarget, (Except.ok.inj hmove).symm⟩
  · rintro ⟨target, htarget, rfl⟩
    rw [(hfree.target_put_iff contents).2 htarget]
    rfl

end ShapeRules.Command.Files
