import Ecma51.Pattern.Search
import Ecma51.Proofs.SlotPlaces

/-!
# Matches lie in the text

A search takes units only where there are some, and goes back only to positions at which it was before. So every position
that it records lies in the subject, whatever it repeats, looks at or hands over; and so do the spans of a match.

* `Slots.Within`: slots for positions hold positions of the subject.
* **`recorded_follow`**, `recorded_explore`: an automaton takes one step, or many.
* **`Instruction.Respects.step`**, **`Program.Respects.run`**: a program takes one step, or many.
* **`liesIn_of_read?`**: the matches of a pattern that was read lie in the text.
-/

namespace Ecma51.Pattern

open Automaton (Thread follow explore)

/-! ## 1. Slots -/

/-- The slots of a kind hold positions of a subject of the given length. -/
def Slots.Within (s : Slots) (places : Nat → Prop) (length : Nat) : Prop :=
  ∀ slot, places slot → ∀ v, s.value? slot = some v → v ≤ length

/-- A span lies in a subject of the given length. -/
def SpanWithin (length : Nat) (s : Span) : Prop := s.1 ≤ length ∧ s.2 ≤ length

section Slots

variable {s : Slots} {places : Nat → Prop} {length slot group : Nat} {value : Option Nat} {span : Option Span}

theorem Slots.within_replicate (n : Nat) : Slots.Within (Array.replicate n none) places length := by
  intro slot _ v hv
  unfold Slots.value? at hv
  rw [Array.getElem?_replicate] at hv
  split at hv <;> cases hv

theorem Slots.Within.setIfInBounds (hs : s.Within places length)
    (hvalue : places slot → ∀ v, value = some v → v ≤ length) :
    Slots.Within (s.setIfInBounds slot value) places length := by
  intro other hother v hv
  unfold Slots.value? at hv
  rw [Array.getElem?_setIfInBounds] at hv
  split at hv
  · rename_i heq
    subst heq
    split at hv
    · exact hvalue hother v hv
    · cases hv
  · exact hs other hother v hv

theorem Slots.Within.setSpan (hs : s.Within places length) (hspan : ∀ x, span = some x → SpanWithin length x) :
    (s.setSpan group span).Within places length := by
  unfold Slots.setSpan
  refine (hs.setIfInBounds fun _ v hv => ?_).setIfInBounds fun _ v hv => ?_
  · obtain ⟨x, hx, rfl⟩ := Option.map_eq_some_iff.mp hv
    exact (hspan x hx).1
  · obtain ⟨x, hx, rfl⟩ := Option.map_eq_some_iff.mp hv
    exact (hspan x hx).2

theorem Slots.Within.span? (hs : s.Within places length) (hfirst : places (startSlot group))
    (hlast : places (startSlot group + 1)) {x : Span} (hx : s.span? group = some x) : SpanWithin length x := by
  unfold Slots.span? at hx
  obtain ⟨first, hf, hx⟩ := Option.bind_eq_some_iff.mp hx
  obtain ⟨last, hl, hx⟩ := Option.bind_eq_some_iff.mp hx
  obtain rfl := Option.some.inj hx
  exact ⟨hs _ hfirst _ hf, hs _ hlast _ hl⟩

theorem Slots.Within.setSpans {pairs : List (Nat × Option Span)} (hs : s.Within places length)
    (hpairs : ∀ p ∈ pairs, ∀ x, p.2 = some x → SpanWithin length x) :
    Slots.Within (pairs.foldl (fun s p => s.setSpan p.1 p.2) s) places length := by
  induction pairs generalizing s with
  | nil => exact hs
  | cons p pairs ih =>
    obtain ⟨hp, hrest⟩ := List.forall_mem_cons.mp hpairs
    exact ih (hs.setSpan hp) hrest

theorem Slots.Within.clearSpans {groups : List Nat} (hs : s.Within places length) :
    Slots.Within (groups.foldl (·.setSpan · none) s) places length := by
  induction groups generalizing s with
  | nil => exact hs
  | cons g groups ih => exact ih (hs.setSpan fun _ h => by cases h)

end Slots

/-! ## 2. Automata -/

section Automata

variable {a : Automaton} {subject : Subject} {places : Nat → Prop}

/-- A position and what was recorded on the way to it lie in the subject. -/
structure Recorded (places : Nat → Prop) (subject : Subject) (position : Nat) (slots : Slots) : Prop where
  position_le : position ≤ subject.size
  slots : slots.Within places subject.size

/-- From a state of the automaton, positions go no further than the subject. -/
theorem recorded_follow {t t' : Thread} {st : State} (ht : Recorded places subject t.position t.slots)
    (ht' : t' ∈ follow subject t st) : Recorded places subject t'.position t'.slots := by
  obtain ⟨hposition, hslots⟩ := ht
  cases st with
  | take s next =>
    unfold follow at ht'
    cases hunit : subject[t.position]? with
    | none =>
      rw [hunit] at ht'
      cases ht'
    | some u =>
      rw [hunit] at ht'
      obtain ⟨hlt, _⟩ := Array.getElem?_eq_some_iff.mp hunit
      obtain ⟨_, rfl⟩ := (List.mem_ite_nil_right ..).mp ht' |>.imp id List.mem_singleton.mp
      exact ⟨hlt, hslots⟩
  | split next =>
    obtain ⟨n, _, rfl⟩ := List.mem_map.mp ht'
    exact ⟨hposition, hslots⟩
  | save slot next =>
    obtain rfl := List.mem_singleton.mp ht'
    exact ⟨hposition, hslots.setIfInBounds fun _ v hv => Option.some.inj hv ▸ hposition⟩
  | atStart next =>
    obtain ⟨_, rfl⟩ := (List.mem_ite_nil_right ..).mp ht' |>.imp id List.mem_singleton.mp
    exact ⟨hposition, hslots⟩
  | atStop next =>
    obtain ⟨_, rfl⟩ := (List.mem_ite_nil_right ..).mp ht' |>.imp id List.mem_singleton.mp
    exact ⟨hposition, hslots⟩
  | accept => cases ht'

theorem recorded_explore {fuel : Nat} {seen : Std.HashSet Nat} {ts : List Thread} {found : Nat × Slots}
    (hts : ∀ t ∈ ts, Recorded places subject t.position t.slots)
    (h : explore a subject fuel seen ts = .ok found) : Recorded places subject found.1 found.2 := by
  induction fuel generalizing seen ts with
  | zero =>
    rw [explore] at h
    cases h
  | succ fuel ih =>
    cases ts with
    | nil =>
      rw [explore] at h
      · cases h
      · exact Nat.succ_ne_zero _
    | cons t rest =>
      obtain ⟨ht, hrest⟩ := List.forall_mem_cons.mp hts
      rw [explore] at h
      split at h
      · exact ih hrest h
      · split at h
        · cases h
          exact ht
        · exact ih (List.forall_mem_append.mpr ⟨fun t' ht' => recorded_follow ht ht', hrest⟩) h
        · exact ih hrest h

theorem recorded_run {position : Nat} {slots : Slots} {found : Nat × Slots} (h₀ : Recorded places subject position slots)
    (h : a.run subject position slots = some found) : Recorded places subject found.1 found.2 := by
  unfold Automaton.run at h
  cases hexplore : explore a subject (a.fuelFor subject) ∅ [⟨a.start, position, slots⟩] with
  | error seen =>
    rw [hexplore] at h
    cases h
  | ok found' =>
    rw [hexplore] at h
    cases h
    exact recorded_explore (List.forall_mem_singleton.mpr h₀) hexplore

theorem recorded_searchFrom {slots : Slots} {n start : Nat} {seen : Std.HashSet Nat} {found : Nat × Nat × Slots}
    (hslots : slots.Within places subject.size) (hn : start + n ≤ subject.size + 1)
    (h : a.searchFrom subject slots n start seen = some found) : found.2.2.Within places subject.size := by
  induction n generalizing start seen with
  | zero => cases h
  | succ n ih =>
    rw [Automaton.searchFrom] at h
    split at h
    · rename_i hexplore
      cases h
      have hstart : start ≤ subject.size := by omega
      exact (recorded_explore (List.forall_mem_singleton.mpr ⟨hstart, hslots⟩) hexplore).slots
    · exact ih (by omega) h

end Automata

/-! ## 3. Programs -/

/-- A running search lies in the subject: the present way, the open ones, and the spans of the latest automaton. -/
structure Attempt.Within (a : Attempt) (places : Nat → Prop) (subject : Subject) : Prop where
  present : Recorded places subject a.position a.slots
  branches : ∀ b ∈ a.branches, Recorded places subject b.position b.slots
  inner : ∀ s, some s ∈ a.inner → SpanWithin subject.size s

/-- What an instruction leads to lies in the subject. -/
def Step.Within (places : Nat → Prop) (subject : Subject) : Step → Prop
  | .go a => a.Within places subject
  | .fail a => a.Within places subject
  | .giveUp => True
  | .found slots => slots.Within places subject.size

section Programs

variable {places : Nat → Prop} {subject : Subject} {a : Attempt} {slot : Nat}

namespace Attempt.Within

theorem atPc (ha : a.Within places subject) (pc : Nat) : Attempt.Within { a with pc } places subject :=
  ⟨ha.1, ha.2, ha.3⟩

theorem next (ha : a.Within places subject) : a.next.Within places subject := ha.atPc _

theorem require (ha : a.Within places subject) (condition : Bool) : (a.require condition).Within places subject := by
  unfold Attempt.require
  split
  · exact ha.next
  · exact ha

theorem moved (ha : a.Within places subject) (pc : Nat) {position : Nat} (hposition : position ≤ subject.size) :
    Attempt.Within { a with pc, position } places subject := ⟨⟨hposition, ha.1.slots⟩, ha.2, ha.3⟩

theorem store (ha : a.Within places subject) {value : Nat} (hvalue : places slot → value ≤ subject.size) :
    (a.store slot value).Within places subject :=
  ⟨⟨ha.1.position_le, ha.1.slots.setIfInBounds fun hslot _ hv => Option.some.inj hv ▸ hvalue hslot⟩, ha.2, ha.3⟩

theorem fork (ha : a.Within places subject) (pc other : Nat) : (a.fork pc other).Within places subject := by
  unfold Attempt.fork
  split
  · exact ⟨ha.1, List.forall_mem_cons.mpr ⟨ha.1, ha.2⟩, ha.3⟩
  · trivial

theorem loop (ha : a.Within places subject) (due greedy : Bool) (next : Nat) :
    (a.loop due greedy next).Within places subject := by
  unfold Attempt.loop
  split
  · exact ha.next
  · split <;> exact ha.fork _ _

theorem cutTo (ha : a.Within places subject) (n : Nat) : (a.cutTo n).Within places subject :=
  ⟨ha.1, fun b hb => ha.2 b (List.mem_of_mem_drop hb), ha.3⟩

theorem handOver (ha : a.Within places subject) {m : Automaton} {groups : List Nat} {listed : Bool}
    (hgroups : ∀ g ∈ groups, places (startSlot g) ∧ places (startSlot g + 1)) :
    (a.handOver subject m groups listed).Within places subject := by
  unfold Attempt.handOver
  split
  · split
    · rename_i hrun
      exact ha.moved _ (recorded_run ha.1 hrun).position_le
    · exact ha
  · have hkept : ∀ s, some s ∈ (List.range groups.length).map (fun i => (a.inner[i]?).join) →
        SpanWithin subject.size s := by
      intro s hs
      obtain ⟨i, _, hi⟩ := List.mem_map.mp hs
      exact ha.inner s (List.mem_of_getElem? (Option.join_eq_some_iff.mp hi))
    split
    · rename_i last slots hrun
      have hfound := recorded_run ⟨ha.1.position_le, ha.1.slots.clearSpans⟩ hrun
      have hinner : ∀ s, some s ∈ (if listed then (List.range groups.length).map (fun i => (a.inner[i]?).join)
          else groups.map slots.span?) → SpanWithin subject.size s := by
        intro s hs
        split at hs
        · exact hkept s hs
        · obtain ⟨g, hg, hspan⟩ := List.mem_map.mp hs
          exact hfound.slots.span? (hgroups g hg).1 (hgroups g hg).2 hspan
      refine ⟨⟨hfound.position_le, hfound.slots.setSpans fun p hp s hs => hinner s (hs ▸ ?_)⟩, ha.2, hinner⟩
      exact (List.of_mem_zip hp).2
    · refine ⟨ha.1, ha.2, fun s hs => ?_⟩
      dsimp only at hs
      split at hs
      · exact hkept s hs
      · cases hs

end Attempt.Within

theorem position_add_unitsWithin_le {bound position octets n : Nat} (hposition : position ≤ subject.size)
    (h : unitsWithin subject bound position octets = some n) : position + n ≤ subject.size := by
  fun_induction unitsWithin subject bound position octets generalizing n with
  | case1 =>
    cases h
    exact hposition
  | case2 => cases h
  | case3 octets bound position hne u hunit hfits ih =>
    obtain ⟨k, hk, rfl⟩ := Option.map_eq_some_iff.mp h
    obtain ⟨hlt, _⟩ := Array.getElem?_eq_some_iff.mp hunit
    have hle := ih hlt hk
    omega
  | case4 => cases h
  | case5 => cases h

/-- What repeats a span ends in the subject. -/
theorem position_add_repeatedLength_le {folded : Bool} {first last position n : Nat} (hposition : position ≤ subject.size)
    (h : repeatedLength? subject folded first last position = some n) : position + n ≤ subject.size := by
  unfold repeatedLength? at h
  dsimp only at h
  split at h
  · cases h
  · split at h
    · obtain ⟨k, hk, h⟩ := Option.bind_eq_some_iff.mp h
      split at h
      · cases h
        exact position_add_unitsWithin_le hposition hk
      · cases h
    · split at h
      · rename_i heq
        cases h
        have hsize := congrArg Array.size (eq_of_beq heq)
        rw [Array.size_extract] at hsize
        omega
      · cases h

/-- **No instruction leaves the subject.** -/
theorem Instruction.Respects.step {i : Instruction} (hi : i.Respects places) (ha : a.Within places subject) :
    (i.step subject a).Within places subject := by
  cases i with
  | take s =>
    unfold Instruction.step
    dsimp only
    split
    · rename_i hunit
      obtain ⟨hlt, _⟩ := Array.getElem?_eq_some_iff.mp hunit
      split
      · exact ha.moved _ hlt
      · exact ha
    · exact ha
  | start => exact ha.require _
  | stop => exact ha.require _
  | wordStart => exact ha.require _
  | wordEnd => exact ha.require _
  | split next other => exact ha.fork _ _
  | jump target => exact ha.atPc _
  | save slot => exact (ha.store fun _ => ha.1.position_le).next
  | clear slot => exact (ha.store fun _ => Nat.zero_le _).next
  | restore slot =>
    refine (ha.moved a.pc ?_).next
    cases hslot : a.slots.value? slot with
    | none => exact ha.1.position_le
    | some v => exact ha.1.slots slot hi v hslot
  | back =>
    unfold Instruction.step
    dsimp only
    split
    · exact ha
    · exact (ha.moved a.pc (Nat.le_trans (Nat.sub_le _ _) ha.1.position_le)).next
  | again least most greedy counter next =>
    unfold Instruction.step
    dsimp only
    split
    · exact ha.atPc _
    · exact (ha.store fun hcounter => absurd hcounter hi).loop _ _ _
  | advance least greedy counter origin next =>
    unfold Instruction.step
    dsimp only
    have hcounted : (a.store counter ((a.slots.value? counter).getD 0 + 1)).Within places subject :=
      ha.store fun hcounter => absurd hcounter hi
    split
    · exact ha.atPc _
    · split
      · exact hcounted.next
      · exact (hcounted.store fun _ => ha.1.position_le).loop _ _ _
  | refuse => exact ha.cutTo _
  | backReference group folded =>
    unfold Instruction.step
    dsimp only
    split
    · split
      · rename_i hlength
        exact ha.moved _ (position_add_repeatedLength_le ha.1.position_le hlength)
      · exact ha
    · exact ha
  | mark slot => exact (ha.store fun hslot => absurd hslot hi).next
  | cut slot => exact (ha.cutTo _).next
  | handOver m groups listed => exact ha.handOver hi
  | accept => exact ha.1.slots

/-- **No run leaves the subject.** -/
theorem Program.Respects.run {p : Program} (hp : p.Respects places) {fuel retreats : Nat} {slots : Slots}
    (ha : a.Within places subject) (h : p.run subject fuel retreats a = some slots) :
    slots.Within places subject.size := by
  induction fuel generalizing retreats a with
  | zero => cases h
  | succ fuel ih =>
    rw [Program.run] at h
    split at h
    · cases h
    · rename_i i hi
      have hstep := (hp i (Array.mem_of_getElem? hi)).step ha
      split at h
      · rename_i hgo
        rw [hgo] at hstep
        exact ih hstep h
      · rename_i hfound
        rw [hfound] at hstep
        cases h
        exact hstep
      · cases h
      · rename_i hfail
        rw [hfail] at hstep
        split at h
        · rename_i b rest hopen
          split at h
          · obtain ⟨hb, hrest⟩ := List.forall_mem_cons.mp (hopen ▸ hstep.branches)
            refine ih ?_ h
            exact ⟨hb, hrest, hstep.inner⟩
          · cases h
        · cases h

end Programs

/-! ## 4. Matches -/

/-- Every span of a match lies in the text. -/
def Match.LiesIn (m : Match) (t : Text) : Prop := ∀ s, some s ∈ m.spans → SpanWithin t.length s

section Matches

variable {groups : Nat} {matcher : Matcher} {root : Node}

/-- What a matcher records of the groups lies in the subject. An automaton records nothing else. -/
theorem within_search (hroot : root.GroupsUpTo groups) (hmatcher : Matcher.ofNode? root groups = some matcher)
    {subject : Subject} {start n : Nat} {slots : Slots} (hstart : start ≤ subject.size)
    (h : matcher.search n subject start = some slots) :
    ∃ places, GroupPlaces groups places ∧ (∀ a, matcher = .automaton a → ∀ slot, places slot) ∧
      slots.Within places subject.size := by
  have hnone (places : Nat → Prop) (n : Nat) : Slots.Within (Array.replicate n none) places subject.size :=
    Slots.within_replicate n
  unfold Matcher.ofNode? at hmatcher
  split at hmatcher
  · obtain ⟨p, hp, rfl⟩ := Option.map_eq_some_iff.mp hmatcher
    obtain ⟨places, hplaces, hrespects⟩ := exists_respects hroot hp
    refine ⟨places, hplaces, fun _ ha => (by cases ha), hrespects.run ?_ h⟩
    exact ⟨⟨hstart, hnone _ _⟩, List.forall_mem_nil _, fun _ hs => absurd hs List.not_mem_nil⟩
  · obtain ⟨a, _, rfl⟩ := Option.map_eq_some_iff.mp hmatcher
    obtain ⟨found, hfound, rfl⟩ := Option.map_eq_some_iff.mp h
    exact ⟨fun _ => True, fun _ _ => trivial, fun _ _ _ => trivial, recorded_searchFrom (hnone _ _) (by omega) hfound⟩

/-- **The matches of a pattern that was read lie in the text.** -/
theorem liesIn_of_read? {flags : RegExpFlags} {source t : Text} {p : Pattern} (hp : read? flags source = some p)
    {start : Nat} {m : Match} (hm : p.find? t start = some m) : m.LiesIn t := by
  obtain ⟨root, groups, hroot, hmatcher, hgroups⟩ := exists_root hp
  unfold Pattern.find? at hm
  dsimp only at hm
  split at hm
  · cases hm
  · rename_i hstart
    obtain ⟨slots, hslots, hm⟩ := Option.bind_eq_some_iff.mp hm
    obtain ⟨span, hspan, hm⟩ := Option.bind_eq_some_iff.mp hm
    obtain rfl := Option.some.inj hm
    obtain ⟨places, hplaces, hautomaton, hwithin⟩ := within_search hroot hmatcher (Nat.not_lt.mp hstart) hslots
    have hplace {g : Nat} (hg : g ≤ p.groups) : places (startSlot g) ∧ places (startSlot g + 1) := by
      rcases hgroups with ⟨a, ha⟩ | hgroups
      · exact ⟨hautomaton a ha _, hautomaton a ha _⟩
      · exact ⟨hplaces _ (by unfold startSlot; omega), hplaces _ (by unfold startSlot; omega)⟩
    intro s hs
    rcases List.mem_cons.mp hs with hs | hs
    · obtain rfl := Option.some.inj hs
      exact hwithin.span? (hplace (Nat.zero_le _)).1 (hplace (Nat.zero_le _)).2 hspan
    · obtain ⟨i, hi, hs⟩ := List.mem_map.mp hs
      have hle : i + 1 ≤ p.groups := List.mem_range.mp hi
      exact hwithin.span? (hplace hle).1 (hplace hle).2 hs

/-- A regular expression that was read has a pattern that was read. -/
theorem exists_read? {source flags : Text} {r : RegExp} (h : RegExp.read source flags = .ok r) :
    ∃ flags, read? flags source = some r.pattern := by
  unfold RegExp.read at h
  cases hflags : RegExpFlags.read flags with
  | error e =>
    rw [hflags] at h
    cases h
  | ok flags =>
    rw [hflags] at h
    dsimp only [bind, Except.bind] at h
    split at h
    · rename_i p hp
      cases h
      exact ⟨flags, hp⟩
    · cases h

end Matches

end Ecma51.Pattern
