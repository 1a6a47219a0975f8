import Mathlib.Data.List.Infix
import Ecma51.Pattern.Reader

/-!
# Places of positions

A program keeps positions and counts in slots of one kind. Which slots are for positions is settled while a tree is
translated: those of the groups, and some of the new ones. What is taken out of such a slot was put there as a position,
since counts go elsewhere; and the groups that an automaton sets are groups of the pattern, since the reader numbers them
in turn.

* `Instruction.Respects`: what an instruction must keep to when some slots are for positions.
* `Allots`: a translation chooses, among the slots that it takes, those for positions.
* **`allots_translate`**: every tree is translated so.
* `Builder.Numbered`, **`numbered_run?`**: no group has a number beyond the number of groups.
* **`exists_root`**, **`exists_respects`**: patterns that were read keep to places among which are those of their groups.
-/

namespace Ecma51.Pattern

/-! ## 1. Instructions -/

/-- What an instruction takes out of its slots as a position was put there as one: the slots of a kind hold positions, and
numbers that count something stand in others. -/
def Instruction.Respects (places : Nat → Prop) : Instruction → Prop
  | .restore slot => places slot
  | .again _ _ _ counter _ => ¬ places counter
  | .advance _ _ counter _ _ => ¬ places counter
  | .mark slot => ¬ places slot
  | .handOver _ groups _ => ∀ g ∈ groups, places (startSlot g) ∧ places (startSlot g + 1)
  | _ => True

/-- All instructions of a program respect the places. -/
def Program.Respects (p : Program) (places : Nat → Prop) : Prop := ∀ i ∈ p.code, i.Respects places

/-! ## 2. Groups of trees -/

/-- The groups of a tree are numbered up to a bound. -/
def Node.GroupsUpTo (groups : Nat) (n : Node) : Prop := ∀ g ∈ n.groupIndices, g ≤ groups

section Trees

variable {groups index least : Nat} {most : Option Nat} {ahead negative greedy : Bool} {body : Node} {ns : List Node}

theorem mem_groupsOfAll {g : Nat} {ns : List Node} : g ∈ groupsOfAll ns ↔ ∃ n ∈ ns, g ∈ n.groupIndices := by
  induction ns with
  | nil =>
    rw [groupsOfAll]
    exact iff_of_false List.not_mem_nil fun ⟨_, h, _⟩ => List.not_mem_nil h
  | cons n ns ih => rw [groupsOfAll, List.mem_append, ih, List.exists_mem_cons_iff]

theorem groupsUpTo_of_nil (h : body.groupIndices = []) : body.GroupsUpTo groups := by
  intro g hg
  rw [h] at hg
  cases hg

theorem groupsUpTo_group : (Node.group index body).GroupsUpTo groups ↔ index ≤ groups ∧ body.GroupsUpTo groups := by
  rw [Node.GroupsUpTo, Node.groupIndices, List.forall_mem_cons]
  exact Iff.rfl

theorem forall_groupsOfAll : (∀ g ∈ groupsOfAll ns, g ≤ groups) ↔ ∀ n ∈ ns, n.GroupsUpTo groups := by
  constructor
  · exact fun h n hn g hg => h g (mem_groupsOfAll.mpr ⟨n, hn, hg⟩)
  · intro h g hg
    obtain ⟨n, hn, hg⟩ := mem_groupsOfAll.mp hg
    exact h n hn g hg

theorem groupsUpTo_concat : (Node.concat ns).GroupsUpTo groups ↔ ∀ n ∈ ns, n.GroupsUpTo groups := by
  rw [Node.GroupsUpTo, Node.groupIndices, forall_groupsOfAll]

theorem groupsUpTo_choice : (Node.choice ns).GroupsUpTo groups ↔ ∀ n ∈ ns, n.GroupsUpTo groups := by
  rw [Node.GroupsUpTo, Node.groupIndices, forall_groupsOfAll]

theorem groupsUpTo_repeats : (Node.repeats body least most greedy).GroupsUpTo groups ↔ body.GroupsUpTo groups := by
  rw [Node.GroupsUpTo, Node.groupIndices]
  exact Iff.rfl

theorem groupsUpTo_look : (Node.look ahead negative body).GroupsUpTo groups ↔ body.GroupsUpTo groups := by
  rw [Node.GroupsUpTo, Node.groupIndices]
  exact Iff.rfl

theorem groupsUpTo_atomic : (Node.atomic body).GroupsUpTo groups ↔ body.GroupsUpTo groups := by
  rw [Node.GroupsUpTo, Node.groupIndices]
  exact Iff.rfl

end Trees

/-! ## 3. Translations -/

/-- The slots of the groups up to a bound are places. -/
def GroupPlaces (groups : Nat) (places : Nat → Prop) : Prop := ∀ slot < 2 * (groups + 1), places slot

/-- A translation allots the slots that it takes: it chooses some of them as places, and its instructions respect all
places that agree with the choice. What it is told of the places of other slots, it relies on. -/
def Allots {α : Type} (told : (Nat → Prop) → Prop) (build : Program.Build α) : Prop :=
  ∀ p x p', build.run p = some (x, p') → p.slots ≤ p'.slots ∧ ∃ chosen : Nat → Prop, ∀ places, told places →
    (∀ slot, p.slots ≤ slot → slot < p'.slots → (places slot ↔ chosen slot)) → p.Respects places → p'.Respects places

section Translations

variable {α β : Type} {told told' : (Nat → Prop) → Prop} {build : Program.Build α} {i : Instruction} {groups : Nat}

theorem Allots.pure (x : α) : Allots told (Pure.pure x : Program.Build α) := by
  intro p y p' h
  obtain ⟨rfl, rfl⟩ := Prod.mk.inj (Option.some.inj h)
  exact ⟨Nat.le_refl _, fun _ => True, fun _ _ _ => id⟩

theorem Allots.failure : Allots told (failure : Program.Build α) := by
  intro p y p' h
  cases h

theorem Allots.bind {next : α → Program.Build β} (hbuild : Allots told build) (hnext : ∀ x, Allots told (next x)) :
    Allots told (build >>= next) := by
  intro p y p' h
  obtain ⟨⟨x, mid⟩, hfirst, hrest⟩ := Option.bind_eq_some_iff.mp h
  obtain ⟨hle, chosen, hchosen⟩ := hbuild p x mid hfirst
  obtain ⟨hle', chosen', hchosen'⟩ := hnext x mid y p' hrest
  refine ⟨Nat.le_trans hle hle', fun slot => (slot < mid.slots ∧ chosen slot) ∨ (mid.slots ≤ slot ∧ chosen' slot),
    fun places htold hagree hp => ?_⟩
  refine hchosen' places htold (fun slot hlow hhigh => ?_) (hchosen places htold (fun slot hlow hhigh => ?_) hp)
  · rw [hagree slot (Nat.le_trans hle hlow) hhigh]
    exact ⟨fun h => h.elim (fun h => absurd h.1 (Nat.not_lt.mpr hlow)) And.right, fun h => .inr ⟨hlow, h⟩⟩
  · rw [hagree slot hlow (Nat.lt_of_lt_of_le hhigh hle')]
    exact ⟨fun h => h.elim And.right fun h => absurd hhigh (Nat.not_lt.mpr h.1), fun h => .inl ⟨hhigh, h⟩⟩

/-- A new slot is a place or not, as is decided here, and what follows is told. -/
theorem Allots.newSlot (isPlace : Prop) {next : Nat → Program.Build β}
    (hnext : ∀ slot, Allots (fun places => told places ∧ (places slot ↔ isPlace)) (next slot)) :
    Allots told (Program.newSlot >>= next) := by
  intro p y p' h
  obtain ⟨hle, chosen, hchosen⟩ := hnext p.slots ⟨p.code, p.slots + 1⟩ y p' h
  refine ⟨Nat.le_of_succ_le hle, fun slot => (slot = p.slots ∧ isPlace) ∨ (p.slots < slot ∧ chosen slot),
    fun places htold hagree hp => ?_⟩
  refine hchosen places ⟨htold, ?_⟩ (fun slot hlow hhigh => ?_) hp
  · rw [hagree p.slots (Nat.le_refl _) hle]
    exact ⟨fun h => h.elim And.right fun h => absurd h.1 (Nat.lt_irrefl _), fun h => .inl ⟨rfl, h⟩⟩
  · rw [hagree slot (Nat.le_of_succ_le hlow) hhigh]
    exact ⟨fun h => h.elim (fun h => absurd h.1 (Nat.ne_of_gt hlow)) And.right, fun h => .inr ⟨hlow, h⟩⟩

theorem Allots.mono (hbuild : Allots told build) (htold : ∀ places, told' places → told places) :
    Allots told' build := by
  intro p x p' h
  obtain ⟨hle, chosen, hchosen⟩ := hbuild p x p' h
  exact ⟨hle, chosen, fun places hplaces => hchosen places (htold places hplaces)⟩

/-- Nothing but instructions changes. -/
theorem Allots.of_code (hbuild : ∀ p x p', build.run p = some (x, p') → p'.slots = p.slots ∧
    ∀ places, told places → p.Respects places → p'.Respects places) : Allots told build := by
  intro p x p' h
  obtain ⟨hslots, hrespects⟩ := hbuild p x p' h
  exact ⟨Nat.le_of_eq hslots.symm, fun _ => True, fun places htold _ => hrespects places htold⟩

theorem allots_here : Allots told Program.here := by
  refine .of_code fun p x p' h => ?_
  obtain ⟨-, rfl⟩ := Prod.mk.inj (Option.some.inj h)
  exact ⟨rfl, fun _ _ => id⟩

theorem allots_add (hi : ∀ places, told places → i.Respects places) : Allots told (Program.add i) := by
  refine .of_code fun p x p' h => ?_
  obtain ⟨-, rfl⟩ := Prod.mk.inj (Option.some.inj h)
  refine ⟨rfl, fun places htold hp j hj => ?_⟩
  rcases Array.mem_push.mp hj with hj | rfl
  · exact hp j hj
  · exact hi places htold

theorem allots_emit (hi : ∀ places, told places → i.Respects places) : Allots told (Program.emit i) :=
  (allots_add hi).bind fun _ => .pure _

theorem allots_patch {n : Nat} (hi : ∀ places, told places → i.Respects places) : Allots told (Program.patch n i) := by
  refine .of_code fun p x p' h => ?_
  obtain ⟨-, rfl⟩ := Prod.mk.inj (Option.some.inj h)
  refine ⟨rfl, fun places htold hp j hj => ?_⟩
  rcases Array.mem_or_eq_of_mem_setIfInBounds hj with hj | rfl
  · exact hp j hj
  · exact hi places htold

theorem allots_forM {xs : List β} {each : β → Program.Build Unit} (heach : ∀ x, Allots told (each x)) :
    Allots told (xs.forM each) := by
  induction xs with
  | nil => exact .pure _
  | cons x xs ih => exact (heach x).bind fun _ => ih

theorem allots_handOver {ns : List Node} (hns : ∀ n ∈ ns, n.GroupsUpTo groups) :
    Allots (GroupPlaces groups) (Program.handOver ns) := by
  unfold Program.handOver
  split
  · exact allots_forM fun s => allots_emit fun _ _ => trivial
  · split
    · refine allots_emit fun places hplaces g hg => ?_
      have hle := forall_groupsOfAll.mpr hns g hg
      exact ⟨hplaces _ (by unfold startSlot; omega), hplaces _ (by unfold startSlot; omega)⟩
    · exact .failure

theorem respects_prefer {greedy : Bool} {body past : Nat} {places : Nat → Prop} :
    (Program.prefer greedy body past).Respects places := by
  unfold Program.prefer
  split <;> trivial

theorem allots_repeated {body : Program.Build Unit} (hbody : Allots told body) (nullable : Bool) (least : Nat)
    (most : Option Nat) (greedy : Bool) : Allots told (Program.repeated body nullable least most greedy) := by
  unfold Program.repeated
  split
  · refine .newSlot False fun counter => .newSlot False fun origin => ?_
    refine .bind (allots_emit fun _ _ => trivial) fun _ => .bind (allots_add fun _ _ => trivial) fun head => ?_
    refine (hbody.mono fun _ h => h.1.1).bind fun _ => .bind (allots_emit fun _ _ => trivial) fun _ => ?_
    exact allots_here.bind fun next => allots_patch fun _ h => h.1.2.mp
  · split
    · refine .bind (allots_add fun _ _ => trivial) fun head => hbody.bind fun _ => ?_
      refine .bind (allots_emit fun _ _ => trivial) fun _ => ?_
      exact allots_here.bind fun next => allots_patch fun _ _ => respects_prefer
    · split
      · refine allots_here.bind fun head => hbody.bind fun _ => ?_
        exact allots_here.bind fun next => allots_emit fun _ _ => respects_prefer
      · refine .newSlot False fun counter => ?_
        refine .bind (allots_emit fun _ _ => trivial) fun _ => .bind (allots_add fun _ _ => trivial) fun head => ?_
        refine (hbody.mono fun _ h => h.1).bind fun _ => .bind (allots_emit fun _ _ => trivial) fun _ => ?_
        exact allots_here.bind fun next => allots_patch fun _ h => h.2.mp

mutual

/-- **A translation allots its slots.** -/
theorem allots_translate (referred : List Nat) (hard : Bool) (n : Node) (hn : n.GroupsUpTo groups) :
    Allots (GroupPlaces groups) (Program.translate referred hard n) := by
  cases n with
  | empty =>
    rw [Program.translate]
    exact .pure _
  | unit | start | stop | wordStart | wordEnd | backReference =>
    rw [Program.translate]
    exact allots_emit fun _ _ => trivial
  | chain sets =>
    rw [Program.translate]
    exact allots_forM fun s => allots_emit fun _ _ => trivial
  | group index body =>
    rw [Program.translate]
    split
    · exact allots_handOver (List.forall_mem_singleton.mpr hn)
    · refine .bind (allots_emit fun _ _ => trivial) fun _ => ?_
      refine (allots_translate referred hard body (groupsUpTo_group.mp hn).2).bind fun _ => ?_
      exact allots_emit fun _ _ => trivial
  | concat parts =>
    have hparts := groupsUpTo_concat.mp hn
    rw [Program.translate]
    split
    · exact allots_handOver hparts
    · refine (allots_handOver fun n hmem => hparts n (List.mem_of_mem_take hmem)).bind fun _ => ?_
      refine (allots_translateSome referred _ _ parts hparts).bind fun _ => ?_
      exact allots_handOver fun n hmem => hparts n (List.mem_of_mem_drop hmem)
  | choice branches =>
    rw [Program.translate]
    split
    · exact allots_handOver (List.forall_mem_singleton.mpr hn)
    · exact allots_translateEach referred hard branches (groupsUpTo_choice.mp hn)
  | repeats body least most greedy =>
    have hbody := groupsUpTo_repeats.mp hn
    rw [Program.translate]
    split
    · exact allots_handOver (List.forall_mem_singleton.mpr hn)
    · split
      · refine .bind (allots_add fun _ _ => trivial) fun head => ?_
        refine (allots_translate referred hard body hbody).bind fun _ => ?_
        exact allots_here.bind fun next => allots_patch fun _ _ => respects_prefer
      · exact allots_repeated (allots_translate referred true body hbody) _ _ _ _
  | look ahead negative body =>
    have hbody := allots_translate referred false body (groupsUpTo_look.mp hn)
    rw [Program.translate]
    split
    · refine .bind (allots_add fun _ _ => trivial) fun head => ?_
      have hrest : ∀ next, Allots (GroupPlaces groups) (Program.patch head (.split (head + 1) next)) :=
        fun next => allots_patch fun _ _ => trivial
      split
      · refine .bind (allots_emit fun _ _ => trivial) fun _ => hbody.bind fun _ => ?_
        exact .bind (allots_emit fun _ _ => trivial) fun _ => allots_here.bind hrest
      · exact hbody.bind fun _ => .bind (allots_emit fun _ _ => trivial) fun _ => allots_here.bind hrest
    · refine .newSlot True fun slot => .bind (allots_emit fun _ _ => trivial) fun _ => ?_
      have hrest : Allots (fun places => GroupPlaces groups places ∧ (places slot ↔ True)) (do
          Program.translate referred false body
          Program.emit (.restore slot)) :=
        (hbody.mono fun _ h => h.1).bind fun _ => allots_emit fun _ h => h.2.mpr trivial
      split
      · exact .bind (allots_emit fun _ _ => trivial) fun _ => hrest
      · exact hrest
  | atomic body =>
    rw [Program.translate]
    refine .newSlot False fun slot => .bind (allots_emit fun _ h => h.2.mp) fun _ => ?_
    refine ((allots_translate referred false body (groupsUpTo_atomic.mp hn)).mono fun _ h => h.1).bind fun _ => ?_
    exact allots_emit fun _ _ => trivial

theorem allots_translateSome (referred : List Nat) (skipped count : Nat) (ns : List Node)
    (hns : ∀ n ∈ ns, n.GroupsUpTo groups) :
    Allots (GroupPlaces groups) (Program.translateSome referred skipped count ns) := by
  cases ns with
  | nil =>
    rw [Program.translateSome]
    · exact .pure _
    · exact fun _ _ _ _ h => List.cons_ne_nil _ _ h.symm
    · exact fun _ _ _ _ _ h => List.cons_ne_nil _ _ h.symm
  | cons n ns =>
    obtain ⟨hn, hrest⟩ := List.forall_mem_cons.mp hns
    cases skipped with
    | zero =>
      cases count with
      | zero =>
        rw [Program.translateSome]
        · exact .pure _
        · exact fun _ _ _ h _ => Nat.succ_ne_zero _ h.symm
        · exact fun _ _ _ _ h _ => Nat.succ_ne_zero _ h.symm
      | succ count =>
        rw [Program.translateSome]
        exact (allots_translate referred true n hn).bind fun _ => allots_translateSome referred 0 count ns hrest
    | succ skipped =>
      rw [Program.translateSome]
      exact allots_translateSome referred skipped count ns hrest

theorem allots_translateEach (referred : List Nat) (hard : Bool) (ns : List Node)
    (hns : ∀ n ∈ ns, n.GroupsUpTo groups) :
    Allots (GroupPlaces groups) (Program.translateEach referred hard ns) := by
  cases ns with
  | nil =>
    rw [Program.translateEach]
    exact .pure _
  | cons n ns =>
    obtain ⟨hn, hrest⟩ := List.forall_mem_cons.mp hns
    cases ns with
    | nil =>
      rw [Program.translateEach]
      exact allots_translate referred hard n hn
    | cons m rest =>
      rw [Program.translateEach]
      · refine .bind (allots_add fun _ _ => trivial) fun head => ?_
        refine (allots_translate referred hard n hn).bind fun _ => ?_
        refine .bind (allots_add fun _ _ => trivial) fun leave => allots_here.bind fun next => ?_
        refine .bind (allots_patch fun _ _ => trivial) fun _ => ?_
        refine (allots_translateEach referred hard (m :: rest) hrest).bind fun _ => ?_
        exact allots_here.bind fun past => allots_patch fun _ _ => trivial
      · exact List.cons_ne_nil _ _

end

/-- The program of a tree respects places among which are the slots of all groups. -/
theorem exists_respects {root : Node} {p : Program} (hroot : root.GroupsUpTo groups)
    (h : Program.ofNode? root groups = some p) : ∃ places, GroupPlaces groups places ∧ p.Respects places := by
  obtain ⟨⟨_, p'⟩, hrun, h⟩ := Option.bind_eq_some_iff.mp h
  obtain rfl := Option.some.inj h
  have hallots : Allots (GroupPlaces groups) (do
      Program.emit (.split 3 1)
      Program.emit (.take .all)
      Program.emit (.jump 0)
      Program.translate root.references false root
      Program.emit .accept) := by
    refine .bind (allots_emit fun _ _ => trivial) fun _ => .bind (allots_emit fun _ _ => trivial) fun _ => ?_
    refine .bind (allots_emit fun _ _ => trivial) fun _ => (allots_translate _ _ _ hroot).bind fun _ => ?_
    exact allots_emit fun _ _ => trivial
  obtain ⟨-, chosen, hchosen⟩ := hallots _ _ _ hrun
  have hplaces : GroupPlaces groups fun slot => slot < 2 * (groups + 1) ∨ chosen slot := fun slot => Or.inl
  refine ⟨_, hplaces, hchosen _ hplaces (fun slot hlow _ => ?_) fun i hi => absurd hi (Array.not_mem_empty i)⟩
  exact ⟨fun h => h.resolve_left (Nat.not_lt.mpr hlow), Or.inr⟩

end Translations

/-! ## 4. Readers -/

/-- A finished atom has no group. -/
def Token.GroupFree : Token → Prop
  | .symbol _ => True
  | .atom n => n.groupIndices = []

section Tokens

variable {folded multiline : Bool} {us : List CodeUnit} {ts : List Token}

theorem groupFree_ofEscape (folded : Bool) (us : List CodeUnit) : ∀ t ∈ (Token.ofEscape folded us).1, t.GroupFree := by
  have hsingle {n : Node} (hn : n.groupIndices = []) : ∀ t ∈ [Token.atom n], t.GroupFree :=
    List.forall_mem_singleton.mpr hn
  cases us with
  | nil => exact hsingle rfl
  | cons u rest =>
    unfold Token.ofEscape
    dsimp only
    split
    · exact hsingle rfl
    · split
      · exact hsingle rfl
      · repeat' split
        · exact List.forall_mem_cons.mpr ⟨rfl, hsingle rfl⟩
        all_goals exact hsingle rfl

theorem groupIndices_ofClass? {negated : Bool} {items : List ClassItem} {n : Node}
    (h : Node.ofClass? folded negated items = some n) : n.groupIndices = [] := by
  obtain ⟨⟨s, after⟩, _, h⟩ := Option.bind_eq_some_iff.mp h
  dsimp only at h
  split at h
  · cases h
    rfl
  · obtain ⟨pieces, _, h⟩ := Option.bind_eq_some_iff.mp h
    obtain rfl := Option.some.inj h
    split
    · rw [Node.groupIndices, List.eq_nil_iff_forall_not_mem]
      intro g hg
      obtain ⟨n, hn, hg⟩ := mem_groupsOfAll.mp hg
      obtain ⟨s, _, rfl⟩ := List.mem_map.mp hn
      exact List.not_mem_nil hg
    · rfl

theorem groupFree_map_cons {t : Token} {found : Option (List Token)} (h : found.map (t :: ·) = some ts) (ht : t.GroupFree)
    (hfound : ∀ ts, found = some ts → ∀ t ∈ ts, t.GroupFree) : ∀ t ∈ ts, t.GroupFree := by
  obtain ⟨ts, hts, rfl⟩ := Option.map_eq_some_iff.mp h
  exact List.forall_mem_cons.mpr ⟨ht, hfound ts hts⟩

/-- **Groups are made by the reader, not by tokens.** -/
theorem groupFree_scan? (h : Token.scan? folded multiline us = some ts) : ∀ t ∈ ts, t.GroupFree := by
  fun_induction Token.scan? folded multiline us generalizing ts with
  | case1 =>
    cases h
    exact List.forall_mem_nil _
  | case2 u rest =>
    rename_i hescape _ ih
    obtain ⟨tokens, htokens, h⟩ := Option.bind_eq_some_iff.mp h
    obtain rfl := Option.some.inj h
    refine List.forall_mem_append.mpr ⟨?_, ih htokens⟩
    have hfound := groupFree_ofEscape folded rest
    rwa [hescape] at hfound
  | case5 => cases h
  | case6 => cases h
  | case7 =>
    rename_i hclass ih
    exact groupFree_map_cons h (groupIndices_ofClass? hclass) fun _ => ih _ (by assumption)
  | case8 => cases h
  | case12 =>
    rename_i ih
    obtain ⟨tokens, htokens, rfl⟩ := Option.map_eq_some_iff.mp h
    refine List.forall_mem_append.mpr ⟨fun t ht => ?_, List.forall_mem_cons.mpr ⟨trivial, ih htokens⟩⟩
    obtain ⟨v, _, rfl⟩ := List.mem_map.mp ht
    trivial
  | case3 | case4 | case9 | case10 | case11 | case13 =>
    rename_i ih
    exact groupFree_map_cons h rfl fun _ => ih _ (by simp)
  | case14 =>
    rename_i ih
    exact groupFree_map_cons h trivial fun _ => ih _ (Nat.le_refl _)

end Tokens

section Readers

variable {groups : Nat} {b b' : Builder} {n : Node}

/-- The groups of an open group are numbered up to a bound, its own number included. -/
structure Frame.GroupsUpTo (groups : Nat) (f : Frame) : Prop where
  opener : ∀ i, f.opener = .numbered i → i ≤ groups
  branches : ∀ n ∈ f.branches, n.GroupsUpTo groups
  pieces : ∀ n ∈ f.pieces, n.GroupsUpTo groups

/-- No group has a number beyond the number of groups so far. -/
structure Builder.Numbered (groups : Nat) (b : Builder) : Prop where
  count : b.groups = groups
  current : b.current.GroupsUpTo groups
  outer : ∀ f ∈ b.outer, f.GroupsUpTo groups
  pending : ∀ n, b.pending = some n → n.GroupsUpTo groups

theorem groupsUpTo_ofPieces {ns : List Node} (hns : ∀ n ∈ ns, n.GroupsUpTo groups) :
    (Node.ofPieces ns).GroupsUpTo groups := by
  unfold Node.ofPieces
  split
  · exact groupsUpTo_of_nil rfl
  · exact hns _ List.mem_cons_self
  · exact groupsUpTo_concat.mpr hns

namespace Builder.Numbered

theorem flush (hb : b.Numbered groups) : b.flush.Numbered groups := by
  unfold Builder.flush
  split
  · exact hb
  · exact ⟨hb.count, hb.current, hb.outer, fun _ h => by cases h⟩
  · rename_i n _ hpending
    have hpieces := List.forall_mem_cons.mpr ⟨hb.pending n hpending, hb.current.pieces⟩
    exact ⟨hb.count, ⟨hb.current.opener, hb.current.branches, hpieces⟩, hb.outer, fun _ h => by cases h⟩

theorem push (hb : b.Numbered groups) (hn : n.GroupsUpTo groups) : (b.push n).Numbered groups :=
  ⟨hb.flush.count, hb.flush.current, hb.flush.outer, fun _ h => Option.some.inj h ▸ hn⟩

theorem endBranch (hb : b.Numbered groups) : b.endBranch.Numbered groups := by
  have hflush := hb.flush
  have hpieces : ∀ n ∈ b.flush.current.pieces.reverse, n.GroupsUpTo groups :=
    fun n hn => hflush.current.pieces n (List.mem_reverse.mp hn)
  exact ⟨hflush.count, ⟨hflush.current.opener,
    List.forall_mem_cons.mpr ⟨groupsUpTo_ofPieces hpieces, hflush.current.branches⟩, List.forall_mem_nil _⟩,
    hflush.outer, hflush.pending⟩

theorem body (hb : b.Numbered groups) : b.body.GroupsUpTo groups := by
  have hbranches : ∀ n ∈ b.endBranch.current.branches.reverse, n.GroupsUpTo groups :=
    fun n hn => hb.endBranch.current.branches n (List.mem_reverse.mp hn)
  unfold Builder.body
  split
  · rename_i heq
    exact hbranches _ (heq ▸ List.mem_cons_self)
  · exact groupsUpTo_choice.mpr hbranches

theorem openGroup {opener : Opener} (hb : b.Numbered groups) (hopener : ∀ i, opener = .numbered i → i ≤ groups)
    (h : b.openGroup opener = some b') : b'.Numbered groups := by
  unfold Builder.openGroup at h
  dsimp only at h
  split at h
  · cases h
    exact ⟨hb.flush.count, ⟨hopener, List.forall_mem_nil _, List.forall_mem_nil _⟩,
      List.forall_mem_cons.mpr ⟨hb.flush.current, hb.flush.outer⟩, hb.flush.pending⟩
  · cases h

theorem succ (hb : b.Numbered groups) : Builder.Numbered (groups + 1) { b with groups := b.groups + 1 } := by
  have hnode {n : Node} (hn : n.GroupsUpTo groups) : n.GroupsUpTo (groups + 1) := fun g hg => Nat.le_succ_of_le (hn g hg)
  have hframe {f : Frame} (hf : f.GroupsUpTo groups) : f.GroupsUpTo (groups + 1) :=
    ⟨fun i hi => Nat.le_succ_of_le (hf.opener i hi), fun n hn => hnode (hf.branches n hn),
      fun n hn => hnode (hf.pieces n hn)⟩
  exact ⟨congrArg (· + 1) hb.count, hframe hb.current, fun f hf => hframe (hb.outer f hf),
    fun n hn => hnode (hb.pending n hn)⟩

theorem openNumbered (hb : b.Numbered groups) (h : b.openNumbered = some b') : b'.Numbered (groups + 1) := by
  refine hb.succ.openGroup (fun i hi => ?_) h
  obtain rfl := Opener.numbered.inj hi
  exact Nat.le_of_eq (congrArg (· + 1) hb.count)

theorem closeGroup (hb : b.Numbered groups) (h : b.closeGroup = some b') : b'.Numbered groups := by
  unfold Builder.closeGroup at h
  split at h
  · cases h
  · rename_i frame outer houter
    obtain rfl := Option.some.inj h
    obtain ⟨hframe, hrest⟩ := List.forall_mem_cons.mp (houter ▸ hb.outer)
    refine ⟨hb.count, hframe, hrest, fun n hn => ?_⟩
    obtain rfl := Option.some.inj hn
    split
    · exact hb.body
    · rename_i i hopener
      exact groupsUpTo_group.mpr ⟨hb.current.opener i hopener, hb.body⟩
    · exact groupsUpTo_look.mpr hb.body

theorem quantify {least : Nat} {most : Option Nat} {greedy atomic : Bool} (hb : b.Numbered groups)
    (h : b.quantify least most greedy atomic = some b') : b'.Numbered groups := by
  unfold Builder.quantify at h
  split at h
  · cases h
  · rename_i n hpending
    split at h
    · obtain rfl := Option.some.inj h
      have hpiece : (if atomic then Node.atomic (.repeats n least most greedy) else .repeats n least most greedy).GroupsUpTo
          groups := by
        have hrepeats : (Node.repeats n least most greedy).GroupsUpTo groups :=
          groupsUpTo_repeats.mpr (hb.pending n hpending)
        split
        · exact groupsUpTo_atomic.mpr hrepeats
        · exact hrepeats
      exact ⟨hb.count, ⟨hb.current.opener, hb.current.branches, List.forall_mem_cons.mpr ⟨hpiece, hb.current.pieces⟩⟩,
        hb.outer, fun _ h => by cases h⟩
    · cases h

end Builder.Numbered

/-- A quantified atom, and what is read after it. -/
theorem numbered_quantify {folded greedy atomic : Bool} {rest : List Token} {least used marks : Nat}
    {most : Option Nat} (hb : b.Numbered groups) (hrest : ∀ t ∈ rest, t.GroupFree)
    (ih : ∀ (used marks : Nat) (b : Builder), ∀ {groups : Nat}, b.Numbered groups →
      (∀ t ∈ rest.drop (used + marks), t.GroupFree) → b.run? folded (rest.drop (used + marks)) = some b' →
        ∃ groups, b'.Numbered groups)
    (h : ((b.quantify least most greedy atomic).bind fun b => b.run? folded (rest.drop (used + marks))) = some b') :
    ∃ groups, b'.Numbered groups := by
  obtain ⟨mid, hmid, h⟩ := Option.bind_eq_some_iff.mp h
  exact ih _ _ mid (hb.quantify hmid) (fun t ht => hrest t (List.mem_of_mem_drop ht)) h

/-- **The reader numbers its groups in turn.** -/
theorem numbered_run? {folded : Bool} {ts : List Token} (hb : b.Numbered groups) (hts : ∀ t ∈ ts, t.GroupFree)
    (h : b.run? folded ts = some b') : ∃ groups, b'.Numbered groups := by
  fun_induction Builder.run? folded b ts generalizing groups with
  | case1 =>
    cases h
    exact ⟨_, hb⟩
  | case2 b n rest ih =>
    obtain ⟨hn, hrest⟩ := List.forall_mem_cons.mp hts
    exact ih (hb.push (groupsUpTo_of_nil hn)) hrest h
  | case3 | case4 | case5 =>
    rename_i ih
    have hrest := (List.forall_mem_cons.mp hts).2
    obtain ⟨opener, hopener, h⟩ := Option.bind_eq_some_iff.mp h
    cases hopener
    obtain ⟨mid, hmid, h⟩ := Option.bind_eq_some_iff.mp h
    exact ih mid (hb.openGroup (fun _ h => by cases h) hmid) (fun t ht => hrest t (List.mem_of_mem_drop ht)) h
  | case6 => cases h
  | case7 =>
    rename_i ih
    obtain ⟨mid, hmid, h⟩ := Option.bind_eq_some_iff.mp h
    exact ih mid (hb.openNumbered hmid) (List.forall_mem_cons.mp hts).2 h
  | case8 =>
    rename_i ih
    obtain ⟨mid, hmid, h⟩ := Option.bind_eq_some_iff.mp h
    exact ih mid (hb.closeGroup hmid) (List.forall_mem_cons.mp hts).2 h
  | case9 =>
    rename_i ih
    exact ih hb.endBranch (List.forall_mem_cons.mp hts).2 h
  | case10 | case11 =>
    rename_i ih
    exact ih (hb.push (groupsUpTo_of_nil rfl)) (List.forall_mem_cons.mp hts).2 h
  | case12 | case13 | case14 =>
    rename_i ih
    exact numbered_quantify hb (List.forall_mem_cons.mp hts).2 ih h
  | case15 b c rest | case16 b c rest | case17 b c rest =>
    rename_i ihRepeated ihLiteral
    have hrest := (List.forall_mem_cons.mp hts).2
    dsimp only at h
    by_cases hbrace : (c == '\x7b' && b.pending.isSome) = true
    · rw [if_pos hbrace] at h
      cases hbounds : boundsOf? (symbolsToBrace rest) with
      | none =>
        rw [hbounds] at h
        exact ihLiteral (hb.push (groupsUpTo_of_nil rfl)) hrest h
      | some bounds =>
        rw [hbounds] at h
        exact numbered_quantify hb hrest ihRepeated h
    · rw [if_neg hbrace] at h
      exact ihLiteral (hb.push (groupsUpTo_of_nil rfl)) hrest h

theorem groupsUpTo_withSpan (hn : n.GroupsUpTo groups) : n.withSpan.GroupsUpTo groups := by
  have hspan {n : Node} (hn : n.GroupsUpTo groups) : (Node.group 0 n).GroupsUpTo groups :=
    groupsUpTo_group.mpr ⟨Nat.zero_le _, hn⟩
  have hboth {n body : Node} (hn : n.GroupsUpTo groups) (hbody : body.GroupsUpTo groups) :
      (Node.concat [.group 0 n, body]).GroupsUpTo groups :=
    groupsUpTo_concat.mpr (List.forall_mem_cons.mpr ⟨hspan hn, List.forall_mem_singleton.mpr hbody⟩)
  unfold Node.withSpan
  split
  · exact hboth (groupsUpTo_of_nil rfl) (groupsUpTo_look.mp hn)
  · rename_i parts
    have hparts := groupsUpTo_concat.mp hn
    split
    · rename_i hlast
      have hbody := groupsUpTo_look.mp (hparts _ (List.mem_of_getLast? hlast))
      exact hboth (groupsUpTo_concat.mpr fun n hmem => hparts n (List.mem_of_mem_dropLast hmem)) hbody
    · exact hspan hn
  · exact hspan hn

end Readers

/-- What looks for a pattern that was read: it has the groups of a tree, or is an automaton. -/
theorem exists_root {flags : RegExpFlags} {source : Text} {p : Pattern} (h : read? flags source = some p) :
    ∃ root groups, root.GroupsUpTo groups ∧ Matcher.ofNode? root groups = some p.matcher ∧
      ((∃ a, p.matcher = .automaton a) ∨ p.groups = groups) := by
  unfold read? at h
  obtain ⟨tokens, htokens, h⟩ := Option.bind_eq_some_iff.mp h
  obtain ⟨b, hb, h⟩ := Option.bind_eq_some_iff.mp h
  dsimp only at h
  split at h
  · cases h
  split at h
  · cases h
  obtain ⟨matcher, hmatcher, h⟩ := Option.bind_eq_some_iff.mp h
  obtain rfl := Option.some.inj h
  have hfirst : Builder.Numbered 0 { pending := if flags.ignoreCase = true then some Node.empty else none } := by
    refine ⟨rfl, ⟨fun _ hopener => (by cases hopener), List.forall_mem_nil _, List.forall_mem_nil _⟩,
      List.forall_mem_nil _, fun n hn => ?_⟩
    dsimp only at hn
    split at hn <;> cases hn
    exact groupsUpTo_of_nil rfl
  obtain ⟨groups, hnumbered⟩ := numbered_run? hfirst (groupFree_scan? htokens) hb
  refine ⟨_, b.groups, groupsUpTo_withSpan (hnumbered.count ▸ hnumbered.body), hmatcher, ?_⟩
  cases matcher with
  | automaton a => exact .inl ⟨a, rfl⟩
  | program p => exact .inr rfl

end Ecma51.Pattern
