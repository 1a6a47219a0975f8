import Mathlib.Data.List.Perm.Basic
import Mathlib.Order.WellFounded

/-!
# Walks along links

Things that each have at most one link to another of their kind. Whoever follows the links from one to
the next comes to an end, unless there is a cycle. Links that are taken away cannot close one; a link that
is put in the place of another closes one exactly if it leads back to where it starts.

* `LinksTo`, `Ending`: one link, and that following links always ends.
* `Walk`: everything that is met on the way.
* **`Ending.relink`**: a link that does not lead back keeps every walk ending.
* **`Walk.length_le`**: a walk is no longer than the number of links, and one.
-/

namespace Ecma51

variable {α : Type} {next next' : α → Option α}

/-! ## 1. Links -/

/-- There is a link from one to the other. -/
def LinksTo (next : α → Option α) (x y : α) : Prop := next x = some y

/-- Whoever follows the links comes to an end. -/
def Ending (next : α → Option α) : Prop := WellFounded fun y x => LinksTo next x y

namespace Ending

theorem of_forall_none (h : ∀ x, next x = none) : Ending next := by
  refine ⟨fun x => ⟨x, fun y hy => ?_⟩⟩
  have hnone : next x = some y := hy
  rw [h x] at hnone
  cases hnone

/-- Links that are taken away do no harm. -/
theorem of_subset (h : Ending next) (hsub : ∀ x y, LinksTo next' x y → LinksTo next x y) :
    Ending next' := Subrelation.wf (fun {y x} => hsub x y) h

/-- Nothing is linked to itself, not over any number of links. -/
theorem not_cycle (h : Ending next) (x : α) : ¬ Relation.TransGen (LinksTo next) x x := by
  intro hx
  -- the relation of the walk is that of the links, turned round
  have hturned : Relation.TransGen (fun y x => LinksTo next x y) x x :=
    Relation.transGen_swap.mpr hx
  exact h.transGen.irrefl.irrefl x hturned

/-- **A link that does not lead back to where it starts keeps every walk ending.** -/
theorem relink (h : Ending next) {a : α}
    (hback : ∀ p, next' a = some p → ¬ Relation.ReflTransGen (LinksTo next) p a)
    (hother : ∀ x, x ≠ a → next' x = next x) : Ending next' := by
  -- from where nothing leads to the changed place, all is as before
  have haway (x : α) : ¬ Relation.ReflTransGen (LinksTo next) x a →
      Acc (fun y x => LinksTo next' x y) x := by
    induction x using h.induction with
    | _ x ih =>
      intro hx
      refine ⟨x, fun y hy => ?_⟩
      have hne : x ≠ a := by
        rintro rfl
        exact hx .refl
      have hold : LinksTo next x y := (hother x hne).symm.trans hy
      exact ih y hold fun hya => hx (.head hold hya)
  have hself : Acc (fun y x => LinksTo next' x y) a := ⟨a, fun y hy => haway y (hback y hy)⟩
  refine ⟨fun x => ?_⟩
  induction x using h.induction with
  | _ x ih =>
    by_cases hx : x = a
    · rw [hx]
      exact hself
    · exact ⟨x, fun y hy => ih y ((hother x hx).symm.trans hy)⟩

/-- A link in the place of another closes a cycle exactly if it leads back. -/
theorem cycle_iff (h : Ending next) {a : α} (hother : ∀ x, x ≠ a → next' x = next x) :
    Relation.TransGen (LinksTo next') a a ↔
      ∃ p, next' a = some p ∧ Relation.ReflTransGen (LinksTo next) p a := by
  constructor
  · intro hcycle
    by_contra hnone
    have hback (p : α) (hp : next' a = some p) : ¬ Relation.ReflTransGen (LinksTo next) p a :=
      fun hpa => hnone ⟨p, hp, hpa⟩
    exact (h.relink hback hother).not_cycle a hcycle
  · rintro ⟨p, hp, hpa⟩
    have hkept {x : α} (hx : Relation.ReflTransGen (LinksTo next) x a) :
        Relation.ReflTransGen (LinksTo next') x a := by
      induction hx using Relation.ReflTransGen.head_induction_on with
      | refl => exact .refl
      | @head x y hxy _ ih =>
        by_cases hx : x = a
        · rw [hx]
        · exact .head ((hother x hx).trans hxy) ih
    exact Relation.TransGen.head' hp (hkept hpa)

end Ending

/-! ## 2. Walks -/

/-- What is met from a start on, following links as long as there is one. -/
inductive Walk (next : α → Option α) : Option α → List α → Prop where
  | done : Walk next none []
  | step {x : α} {l : List α} : Walk next (next x) l → Walk next (some x) (x :: l)

namespace Walk

variable {start : Option α} {l : List α}

/-- If every walk ends, there is one from everywhere. -/
theorem exists_of_ending (h : Ending next) (start : Option α) : ∃ l, Walk next start l := by
  have hsome (x : α) : ∃ l, Walk next (some x) l := by
    induction x using h.induction with
    | _ x ih =>
      cases hx : next x with
      | none => exact ⟨[x], .step (by rw [hx]; exact .done)⟩
      | some y =>
        obtain ⟨l, hl⟩ := ih y hx
        exact ⟨x :: l, .step (by rw [hx]; exact hl)⟩
  cases start with
  | none => exact ⟨[], .done⟩
  | some x => exact hsome x

/-- The places of a walk are those that its start leads to. -/
theorem mem_iff (hw : Walk next start l) (y : α) :
    y ∈ l ↔ ∃ x, start = some x ∧ Relation.ReflTransGen (LinksTo next) x y := by
  induction hw with
  | done => simp
  | @step x l hrest ih =>
    rw [List.mem_cons, ih]
    constructor
    · rintro (rfl | ⟨z, hz, hzy⟩)
      · exact ⟨y, rfl, .refl⟩
      · exact ⟨x, rfl, .head hz hzy⟩
    · rintro ⟨x', hx', hxy⟩
      cases hx'
      rcases hxy.cases_head with rfl | ⟨z, hz, hzy⟩
      · exact .inl rfl
      · exact .inr ⟨z, hz, hzy⟩

/-- A walk that ends meets nothing twice. -/
theorem nodup (hw : Walk next start l) (h : Ending next) : l.Nodup := by
  induction hw with
  | done => exact .nil
  | @step x l hrest ih =>
    refine List.nodup_cons.mpr ⟨fun hx => ?_, ih⟩
    obtain ⟨y, hy, hyx⟩ := (hrest.mem_iff x).mp hx
    exact h.not_cycle x (.head' hy hyx)

/-- Everything but the last has a link. -/
theorem linked_of_mem_dropLast (hw : Walk next start l) {x : α} (hx : x ∈ l.dropLast) :
    ∃ y, LinksTo next x y := by
  induction hw with
  | done => cases hx
  | @step z l hrest ih =>
    cases l with
    | nil => cases hx
    | cons y l =>
      rw [List.dropLast_cons_cons] at hx
      rcases List.mem_cons.mp hx with rfl | hx
      · generalize hz : next x = after at hrest
        cases hrest with
        | step _ => exact ⟨y, hz⟩
      · exact ih hx

/-- There is one walk from a start only. -/
theorem unique {l' : List α} (hw : Walk next start l) (hw' : Walk next start l') : l = l' := by
  induction hw generalizing l' with
  | done =>
    cases hw'
    rfl
  | step _ ih =>
    cases hw' with
    | step hrest' => rw [ih hrest']

/-- From each of its places on, what is left of a walk is a walk. -/
theorem from_mem {x : α} (hw : Walk next start l) (hx : x ∈ l) :
    ∃ rest, Walk next (some x) rest ∧ rest.length ≤ l.length := by
  induction hw with
  | done => cases hx
  | @step y l hrest ih =>
    rcases List.mem_cons.mp hx with rfl | hx
    · exact ⟨x :: l, .step hrest, Nat.le_refl _⟩
    · obtain ⟨rest, hfrom, hle⟩ := ih hx
      exact ⟨rest, hfrom, Nat.le_succ_of_le hle⟩

/-- What comes to an end meets nothing twice, wherever other walks lead. -/
theorem distinct (hw : Walk next start l) : l.Nodup := by
  induction hw with
  | done => exact .nil
  | @step x l hrest ih =>
    refine List.nodup_cons.mpr ⟨fun hx => ?_, ih⟩
    obtain ⟨rest, hagain, hle⟩ := hrest.from_mem hx
    -- the walk from the second place on is the whole walk, and shorter
    rw [hagain.unique (.step hrest)] at hle
    exact Nat.not_succ_le_self _ hle

/-- **A walk has at most one place more than there are places with a link.** -/
theorem length_le (hw : Walk next start l) (hnodup : l.Nodup) {places : List α}
    (hplaces : ∀ x y, LinksTo next x y → x ∈ places) : l.length ≤ places.length + 1 := by
  have hsub : l.dropLast ⊆ places := fun x hx => by
    obtain ⟨y, hy⟩ := hw.linked_of_mem_dropLast hx
    exact hplaces x y hy
  have hnodup : l.dropLast.Nodup := hnodup.sublist l.dropLast_sublist
  have hle : l.dropLast.length ≤ places.length := (List.subperm_of_subset hnodup hsub).length_le
  rw [List.length_dropLast] at hle
  omega

/-- The walk from the next place on is what is left of the walk. -/
theorem tail (hw : Walk next start l) {x : α} (hx : start = some x) :
    ∃ rest, l = x :: rest ∧ Walk next (next x) rest := by
  cases hw with
  | done => cases hx
  | @step y rest hrest =>
    cases hx
    exact ⟨rest, rfl, hrest⟩

end Walk

end Ecma51
