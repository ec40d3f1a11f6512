import Mathlib.Data.List.Forall2
import ShapeRules.Compile.Traced

/-!
# Traversals that can fail

A traversal of a list that can fail succeeds exactly if each of its parts does, and fails with the
error of one part, reached when the parts before it have succeeded.

## Main results

* `Except.mapM_eq_ok_iff`: the results of a traversal are those of its parts
* `Except.exists_mapM_eq_ok_iff`: when a traversal succeeds
* `Except.exists_result_of_mem`, `Except.exists_part_of_mem`: from a part to its result and back
* `Except.mem_flatten_iff`: a traversal that finds lists
* `Except.exists_mapM_eq_error_of_mem`: a traversal with a part that fails
* `Except.mapM_eq_ok_iff_flatMap`: a traversal whose parts are told by a list of results
* `Compile.Traced.foldlM_cons_eq_ok_iff`, `Compile.Traced.events_foldlM_cons`: a run along a list,
  and what it reports
* `Compile.Traced.result_foldlM_congr`, `Compile.Traced.result_foldlM_filter`: runs along lists with
  the same outcome
* `Compile.Traced.exists_step_of_foldlM_eq_error`: the step at which a run along a list fails
-/

namespace ShapeRules

variable {ε α β σ : Type}

theorem Except.bind_eq_ok_iff {x : Except ε α} {f : α → Except ε β} {b : β} :
    x >>= f = .ok b ↔ ∃ a, x = .ok a ∧ f a = .ok b := by
  cases x with
  | error e => simp [bind, Except.bind]
  | ok a => simp [bind, Except.bind]

/-- A chain fails exactly if one of its parts does, the second one after the first has succeeded. -/
theorem Except.bind_eq_error_iff {x : Except ε α} {f : α → Except ε β} {e : ε} :
    x >>= f = .error e ↔ x = .error e ∨ ∃ a, x = .ok a ∧ f a = .error e := by
  cases x with
  | error e' => simp [bind, Except.bind]
  | ok a => simp [bind, Except.bind]

/-- A chain that succeeds has a first part that does. -/
theorem Except.exists_of_bind_eq_ok {x : Except ε α} {f : α → Except ε β}
    (h : ∃ b, x >>= f = .ok b) : ∃ a, x = .ok a := by
  obtain ⟨b, hb⟩ := h
  obtain ⟨a, ha, -⟩ := bind_eq_ok_iff.1 hb
  exact ⟨a, ha⟩

/-- A part that cannot fail adds no errors to a chain. -/
theorem Except.bind_pure_eq_error_iff {x : Except ε α} {f : α → β} {e : ε} :
    (x >>= fun a => pure (f a)) = .error e ↔ x = .error e := by
  cases x with
  | error e' => simp [bind, Except.bind]
  | ok a => simp [bind, Except.bind, pure, Except.pure]

theorem Except.mapError_eq_ok_iff {ε' : Type} {x : Except ε α} {f : ε → ε'} {a : α} :
    x.mapError f = .ok a ↔ x = .ok a := by
  cases x with
  | error e => simp [Except.mapError]
  | ok b => simp [Except.mapError]

theorem Except.mapError_eq_error_iff {ε' : Type} {x : Except ε α} {f : ε → ε'} {e : ε'} :
    x.mapError f = .error e ↔ ∃ e', x = .error e' ∧ f e' = e := by
  cases x with
  | error e' => simp [Except.mapError]
  | ok a => simp [Except.mapError]

/-- **A traversal succeeds exactly if each part does,** and then gives their results in order. -/
theorem Except.mapM_eq_ok_iff {f : α → Except ε β} {l : List α} {m : List β} :
    l.mapM f = .ok m ↔ List.Forall₂ (fun a b => f a = .ok b) l m := by
  induction l generalizing m with
  | nil =>
    simp [pure, Except.pure, eq_comm]
  | cons a l ih =>
    rw [List.mapM_cons, bind_eq_ok_iff, List.forall₂_cons_left_iff]
    constructor
    · rintro ⟨b, hb, h⟩
      obtain ⟨bs, hbs, h⟩ := bind_eq_ok_iff.1 h
      obtain rfl := Except.ok.inj h
      exact ⟨b, bs, hb, ih.1 hbs, rfl⟩
    · rintro ⟨b, bs, hb, hbs, rfl⟩
      exact ⟨b, hb, bind_eq_ok_iff.2 ⟨bs, ih.2 hbs, rfl⟩⟩

/-- Traversals whose parts have the same outcomes have the same outcome. -/
theorem Except.mapM_congr {f f' : α → Except ε β} {l : List α} (h : ∀ a ∈ l, f a = f' a) :
    l.mapM f = l.mapM f' := by
  induction l with
  | nil => rfl
  | cons a l ih =>
    rw [List.forall_mem_cons] at h
    rw [List.mapM_cons, List.mapM_cons, h.1, ih h.2]

/-- Each part of a traversal that succeeds has its result among the results. -/
theorem Except.exists_result_of_mem {f : α → Except ε β} {l : List α} {m : List β}
    (h : l.mapM f = .ok m) {a : α} (ha : a ∈ l) : ∃ b ∈ m, f a = .ok b := by
  rw [mapM_eq_ok_iff] at h
  induction h with
  | nil => cases ha
  | @cons a' b l m hab _ ih =>
    rcases List.mem_cons.1 ha with rfl | ha
    · exact ⟨b, List.mem_cons_self, hab⟩
    · obtain ⟨b', hb', h⟩ := ih ha
      exact ⟨b', List.mem_cons_of_mem b hb', h⟩

/-- A traversal succeeds exactly if each part does. -/
theorem Except.exists_mapM_eq_ok_iff {f : α → Except ε β} {l : List α} :
    (∃ m, l.mapM f = .ok m) ↔ ∀ a ∈ l, ∃ b, f a = .ok b := by
  constructor
  · rintro ⟨m, hm⟩ a ha
    obtain ⟨b, -, hb⟩ := exists_result_of_mem hm ha
    exact ⟨b, hb⟩
  · intro h
    induction l with
    | nil => exact ⟨[], rfl⟩
    | cons a l ih =>
      rw [List.forall_mem_cons] at h
      obtain ⟨b, hb⟩ := h.1
      obtain ⟨m, hm⟩ := ih h.2
      exact ⟨b :: m, mapM_eq_ok_iff.2 (.cons hb (mapM_eq_ok_iff.1 hm))⟩

/-- Each result of a traversal is that of one of its parts. -/
theorem Except.exists_part_of_mem {f : α → Except ε β} {l : List α} {m : List β}
    (h : l.mapM f = .ok m) {b : β} (hb : b ∈ m) : ∃ a ∈ l, f a = .ok b := by
  rw [mapM_eq_ok_iff] at h
  induction h with
  | nil => cases hb
  | @cons a b' l m hab _ ih =>
    rcases List.mem_cons.1 hb with rfl | hb
    · exact ⟨a, List.mem_cons_self, hab⟩
    · obtain ⟨a', ha', h⟩ := ih hb
      exact ⟨a', List.mem_cons_of_mem a ha', h⟩

/-- The members of the lists that a traversal finds are those of the lists of its parts. -/
theorem Except.mem_flatten_iff {f : α → Except ε (List β)} {l : List α} {m : List (List β)}
    (h : l.mapM f = .ok m) {b : β} :
    b ∈ m.flatten ↔ ∃ a ∈ l, ∃ part, f a = .ok part ∧ b ∈ part := by
  rw [List.mem_flatten]
  constructor
  · rintro ⟨part, hpart, hb⟩
    obtain ⟨a, ha, hf⟩ := exists_part_of_mem h hpart
    exact ⟨a, ha, part, hf, hb⟩
  · rintro ⟨a, ha, part, hf, hb⟩
    obtain ⟨part', hpart', hf'⟩ := exists_result_of_mem h ha
    obtain rfl := Except.ok.inj (hf.symm.trans hf')
    exact ⟨part, hpart', hb⟩

/-- A traversal that fails does so with the error of one of its parts. -/
theorem Except.exists_part_of_mapM_eq_error {f : α → Except ε β} {l : List α} {e : ε}
    (h : l.mapM f = .error e) : ∃ a ∈ l, f a = .error e := by
  induction l with
  | nil => cases h
  | cons a l ih =>
    rw [List.mapM_cons, bind_eq_error_iff] at h
    rcases h with h | ⟨b, -, h⟩
    · exact ⟨a, List.mem_cons_self, h⟩
    · rcases bind_eq_error_iff.1 h with h | ⟨m, -, h⟩
      · obtain ⟨a', ha', h⟩ := ih h
        exact ⟨a', List.mem_cons_of_mem a ha', h⟩
      · cases h

/-- A traversal with a part that fails does so with the error of that part, or of one before it. -/
theorem Except.exists_mapM_eq_error_of_mem {f : α → Except ε β} {l : List α} {a : α} {e : ε}
    (ha : a ∈ l) (h : f a = .error e) :
    ∃ e', l.mapM f = .error e' ∧ (e' = e ∨ ∃ b, [b, a].Sublist l ∧ f b = .error e') := by
  induction l with
  | nil => cases ha
  | cons x l ih =>
    rw [List.mapM_cons]
    cases hx : f x with
    | error e' =>
      refine ⟨e', rfl, ?_⟩
      rcases List.mem_cons.1 ha with rfl | ha
      · exact .inl (Except.error.inj (hx.symm.trans h))
      · exact .inr ⟨x, List.cons_sublist_cons.2 (List.singleton_sublist.2 ha), hx⟩
    | ok c =>
      -- the part is not the first one, which has succeeded
      have hne : a ≠ x := by
        rintro rfl
        cases h.symm.trans hx
      obtain ⟨e', hl, he'⟩ := ih ((List.mem_cons.1 ha).resolve_left hne)
      rw [hl]
      exact ⟨e', rfl, he'.imp_right fun ⟨b, hsub, hb⟩ => ⟨b, hsub.cons x, hb⟩⟩

/-- A traversal whose parts succeed under a condition, each with the one result that `g` lists. -/
theorem Except.mapM_eq_ok_iff_flatMap {f : α → Except ε β} {good : α → Prop} {g : α → List β}
    (hok : ∀ a b, f a = .ok b ↔ g a = [b]) (hgood : ∀ a, good a ↔ ∃ b, g a = [b])
    {l : List α} {m : List β} :
    l.mapM f = .ok m ↔ (∀ a ∈ l, good a) ∧ m = l.flatMap g := by
  rw [mapM_eq_ok_iff]
  constructor
  · intro h
    -- the one result of each part is the list that `g` gives for it
    induction h with
    | nil => simp
    | @cons a b l m hab _ ih =>
      obtain ⟨hl, rfl⟩ := ih
      have hg : g a = [b] := (hok a b).1 hab
      refine ⟨List.forall_mem_cons.2 ⟨(hgood a).2 ⟨b, hg⟩, hl⟩, ?_⟩
      rw [List.flatMap_cons, hg]
      rfl
  · rintro ⟨hl, rfl⟩
    induction l with
    | nil => exact .nil
    | cons a l ih =>
      obtain ⟨ha, hl⟩ := List.forall_mem_cons.1 hl
      obtain ⟨b, hg⟩ := (hgood a).1 ha
      rw [List.flatMap_cons, hg]
      exact .cons ((hok a b).2 hg) (ih hl)

theorem Option.length_of_mapM_eq_some {f : α → Option β} {l : List α} {m : List β}
    (h : l.mapM f = some m) : m.length = l.length := by
  induction l generalizing m with
  | nil =>
    obtain rfl := Option.some.inj h
    rfl
  | cons a l ih =>
    rw [List.mapM_cons] at h
    obtain ⟨b, -, h⟩ := Option.bind_eq_some_iff.1 h
    obtain ⟨m, hm, h⟩ := Option.bind_eq_some_iff.1 h
    obtain rfl := Option.some.inj h
    rw [List.length_cons, List.length_cons, ih hm]

/-- A look-up that finds more finds what another one has found. -/
theorem Option.mapM_eq_some_mono {f f' : α → Option β} {l : List α} {m : List β}
    (hf : ∀ {a b}, f a = some b → f' a = some b) (h : l.mapM f = some m) : l.mapM f' = some m := by
  induction l generalizing m with
  | nil => exact h
  | cons a l ih =>
    rw [List.mapM_cons] at h ⊢
    obtain ⟨b, hb, h⟩ := Option.bind_eq_some_iff.1 h
    obtain ⟨bs, hbs, h⟩ := Option.bind_eq_some_iff.1 h
    exact Option.bind_eq_some_iff.2 ⟨b, hf hb, Option.bind_eq_some_iff.2 ⟨bs, ih hbs, h⟩⟩

namespace Compile.Traced

@[simp]
theorem result_ofExcept (x : Except ε α) : (ofExcept x).result = x := rfl

@[simp]
theorem result_report (event : Event) : (report event : Traced ε Unit).result = .ok () := rfl

/-- The outcome of a chain is the chain of the outcomes; the events play no part in it. -/
theorem result_bind (x : Traced ε α) (f : α → Traced ε β) :
    (x >>= f).result = x.result >>= fun a => (f a).result := by
  obtain ⟨es, e | a⟩ := x <;> rfl

/-- Chains can be regrouped. -/
theorem bind_assoc {γ : Type} (x : Traced ε α) (f : α → Traced ε β)
    (g : β → Traced ε γ) : x >>= f >>= g = x >>= fun a => f a >>= g := by
  obtain ⟨events, e | a⟩ := x
  · rfl
  · rw [bind_ok, bind_ok]
    obtain ⟨events', e | b⟩ := f a
    · rfl
    · simp

/-- The events of a chain whose first part succeeds: those of the first part, then those of the
second. -/
theorem events_bind {x : Traced ε α} {f : α → Traced ε β} {a : α} (h : x.result = .ok a) :
    (x >>= f).events = x.events ++ (f a).events := by
  obtain ⟨es, e | b⟩ := x
  · cases h
  · obtain rfl := Except.ok.inj h
    rfl

/-- The events of a run along a list whose first step succeeds. -/
theorem events_foldlM_cons {f : σ → α → Traced ε σ} {a : α} {l : List α} {s u : σ}
    (h : (f s a).result = .ok u) :
    ((a :: l).foldlM f s).events = (f s a).events ++ (l.foldlM f u).events := by
  rw [List.foldlM_cons, events_bind h]

/-- A run along a list succeeds exactly if its first step does and the run from there does. -/
theorem foldlM_cons_eq_ok_iff {f : σ → α → Traced ε σ} {a : α} {l : List α} {s t : σ} :
    ((a :: l).foldlM f s).result = .ok t ↔
      ∃ u, (f s a).result = .ok u ∧ (l.foldlM f u).result = .ok t := by
  rw [List.foldlM_cons, bind_eq_ok_iff]

@[simp]
theorem foldlM_nil_eq_ok_iff {f : σ → α → Traced ε σ} {s t : σ} :
    (([] : List α).foldlM f s).result = .ok t ↔ s = t := by
  simp

/-- Two runs along a list whose steps have the same outcomes have the same outcome. -/
theorem result_foldlM_congr {f g : σ → α → Traced ε σ} {l : List α}
    (h : ∀ s, ∀ a ∈ l, (f s a).result = (g s a).result) (s : σ) :
    (l.foldlM f s).result = (l.foldlM g s).result := by
  induction l generalizing s with
  | nil => rfl
  | cons a l ih =>
    rw [List.foldlM_cons, List.foldlM_cons, result_bind, result_bind, h s a List.mem_cons_self]
    congr 1
    funext u
    exact ih (fun s b hb => h s b (List.mem_cons_of_mem a hb)) u

/-- A run whose steps leave the state alone where a test fails has the same outcome as a run along
the rest of the list. -/
theorem result_foldlM_filter {f : σ → α → Traced ε σ} {keep : α → Bool} (l : List α)
    (h : ∀ s, ∀ a ∈ l, keep a = false → (f s a).result = .ok s) (s : σ) :
    (l.foldlM f s).result = ((l.filter keep).foldlM f s).result := by
  induction l generalizing s with
  | nil => rfl
  | cons a l ih =>
    have hl : ∀ s, ∀ b ∈ l, keep b = false → (f s b).result = .ok s :=
      fun s b hb => h s b (List.mem_cons_of_mem a hb)
    cases ha : keep a with
    | false =>
      rw [List.filter_cons_of_neg (by simp [ha]), List.foldlM_cons, result_bind,
        h s a List.mem_cons_self ha]
      exact ih hl s
    | true =>
      rw [List.filter_cons_of_pos ha, List.foldlM_cons, List.foldlM_cons, result_bind, result_bind]
      congr 1
      funext u
      exact ih hl u

/-- **The step at which a run along a list fails:** the steps before it have succeeded. -/
theorem exists_step_of_foldlM_eq_error {f : σ → α → Traced ε σ} {l : List α} {s : σ} {e : ε}
    (h : (l.foldlM f s).result = .error e) :
    ∃ before a after u, l = before ++ a :: after ∧ (before.foldlM f s).result = .ok u ∧
      (f u a).result = .error e := by
  induction l generalizing s with
  | nil => cases h
  | cons a l ih =>
    rw [List.foldlM_cons, result_bind, Except.bind_eq_error_iff] at h
    rcases h with h | ⟨u, hu, h⟩
    · exact ⟨[], a, l, s, rfl, rfl, h⟩
    · obtain ⟨before, b, after, v, rfl, hv, h⟩ := ih h
      exact ⟨a :: before, b, after, v, rfl, foldlM_cons_eq_ok_iff.2 ⟨u, hu, hv⟩, h⟩

end Compile.Traced

end ShapeRules
