import Mathlib.Data.List.Nodup
import SourceScan.Proofs.Json.Steps

/-!
# One member to a name

An object is written as a list of pairs, and a name may occur in it more than once; read, it has one
member to a name (`nodup_names_members`). `Json.Distinct` says so of every object in a value, and
`distinct_of_read` says that every value read is such a one: what the readers of values, items and
members give is put together of parts that are.
-/

namespace SourceScan.Json

/-- Every object in the value, the value itself included, has one member to a name. -/
inductive Distinct : Json → Prop
  | null : Distinct .null
  | bool (b : Bool) : Distinct (.bool b)
  | int (n : Int) : Distinct (.int n)
  | real (x : Binary64) : Distinct (.real x)
  | str (s : CodeString) : Distinct (.str s)
  | arr {items : List Json} (parts : ∀ v ∈ items, Distinct v) : Distinct (.arr items)
  | obj {ms : Members} (names : (ms.map (·.1)).Nodup) (parts : ∀ m ∈ ms, Distinct m.2) :
      Distinct (.obj ms)

variable {pairs ms : Members} {v : Json} {name : String} {text rest : CodeString}
  {fuel depth place place' : Nat}

theorem Distinct.nodup_names (h : Distinct (.obj ms)) : (ms.map (·.1)).Nodup := by
  cases h with
  | obj names _ => exact names

theorem Distinct.of_member? (h : Distinct (.obj ms)) (hv : member? ms name = some v) : v.Distinct := by
  obtain ⟨before, after, rfl, _⟩ := List.lookup_eq_some_iff.mp hv
  cases h with
  | obj _ parts => exact parts _ (List.mem_append_right before List.mem_cons_self)

/-! ## Members -/

theorem nodup_eraseDups {α : Type} [BEq α] [LawfulBEq α] (l : List α) : l.eraseDups.Nodup := by
  cases l with
  | nil => simp
  | cons a l =>
    rw [List.eraseDups_cons]
    refine List.nodup_cons.mpr ⟨?_, nodup_eraseDups (l.filter fun b => !b == a)⟩
    simp [List.mem_eraseDups]
termination_by l.length
decreasing_by exact Nat.lt_succ_of_le (List.length_filter_le _ _)

/-- An object keeps one member to a name. -/
theorem nodup_names_members (pairs : Members) : ((members pairs).map (·.1)).Nodup := by
  rw [members, List.map_filterMap]
  refine List.Nodup.filterMap ?_ (nodup_eraseDups _)
  intro a a' b ha ha'
  simp only [Option.map_map, Option.mem_def, Option.map_eq_some_iff, Function.comp_apply] at ha ha'
  obtain ⟨_, _, rfl⟩ := ha
  obtain ⟨_, _, h⟩ := ha'
  exact h.symm

theorem mem_of_mem_members {m : CodeString × Json} (h : m ∈ members pairs) : m ∈ pairs := by
  obtain ⟨name, _, hm⟩ := List.mem_filterMap.mp h
  obtain ⟨v, hv, rfl⟩ := Option.map_eq_some_iff.mp hm
  obtain ⟨before, after, hpairs, _⟩ := List.lookup_eq_some_iff.mp hv
  have hmem : (name, v) ∈ pairs.reverse := by
    rw [hpairs]
    exact List.mem_append_right before List.mem_cons_self
  exact List.mem_reverse.mp hmem

theorem distinct_members (h : ∀ m ∈ pairs, m.2.Distinct) : Distinct (.obj (members pairs)) :=
  .obj (nodup_names_members pairs) fun m hm => h m (mem_of_mem_members hm)

/-! ## Readers -/

theorem distinct_of_readNumber {cs : List Char} {n : Nat} (h : readNumber place cs = .ok (v, n)) :
    v.Distinct := by
  rw [readNumber_eq] at h
  split at h
  · cases h
  · rcases int_or_real_of_numberOf h with ⟨n, hn⟩ | ⟨x, hx⟩
    · dsimp only at hn
      rw [hn]
      exact .int n
    · dsimp only at hx
      rw [hx]
      exact .real x

theorem distinct_of_readAtom (h : readAtom place text = .ok (v, place', rest)) : v.Distinct := by
  rw [readAtom] at h
  split at h
  · next word v' hfind =>
    cases h
    have hmem := List.mem_of_find?_eq_some hfind
    simp only [words, List.mem_cons, List.not_mem_nil, or_false, Prod.mk.injEq] at hmem
    rcases hmem with ⟨_, rfl⟩ | ⟨_, rfl⟩ | ⟨_, rfl⟩ | ⟨_, rfl⟩ | ⟨_, rfl⟩ | ⟨_, rfl⟩
    · exact .null
    · exact .bool true
    · exact .bool false
    · exact .real _
    · exact .real _
    · exact .real _
  · cases hn : readNumber place (numberPart text) with
    | error e =>
      rw [hn] at h
      cases h
    | ok r =>
      rw [hn] at h
      cases h
      exact distinct_of_readNumber hn

/-- The three readers with this much fuel give values whose objects have one member to a name. -/
structure ReadsDistinct (fuel : Nat) : Prop where
  value : ∀ {depth place text v place' rest},
    readValue fuel depth place text = .ok (v, place', rest) → v.Distinct
  items : ∀ {depth place text done v place' rest}, (∀ d ∈ done, d.Distinct) →
    readItems fuel depth place text done = .ok (v, place', rest) → v.Distinct
  members : ∀ {depth place text} {done : Members} {v place' rest}, (∀ d ∈ done, d.2.Distinct) →
    readMembers fuel depth place text done = .ok (v, place', rest) → v.Distinct

namespace ReadsDistinct

theorem zero : ReadsDistinct 0 := by
  refine ⟨fun h => ?_, fun _ h => ?_, fun _ h => ?_⟩
  · rw [readValue] at h
    cases h
  · rw [readItems] at h
    cases h
  · rw [readMembers] at h
    cases h

theorem value_succ (ih : ReadsDistinct fuel)
    (h : readValue (fuel + 1) depth place text = .ok (v, place', rest)) : v.Distinct := by
  obtain ⟨c, text, rfl⟩ := exists_scalar_of_readValue h
  by_cases hquote : c = '\x22'
  · rw [hquote, readValue_quote] at h
    cases hstring : readString place (fuel + 1) (place + 1) text [] with
    | error e =>
      rw [hstring] at h
      cases h
    | ok r =>
      rw [hstring] at h
      rw [(Prod.mk.inj (Except.ok.inj h)).1.symm]
      exact .str r.1
  by_cases hbracket : c = '['
  · cases depth with
    | zero =>
      rw [hbracket, readValue_bracket_zero] at h
      cases h
    | succ depth =>
      rw [hbracket, readValue_bracket] at h
      split at h
      · cases h
        exact .arr fun v hv => absurd hv List.not_mem_nil
      · exact ih.items (fun d hd => absurd hd List.not_mem_nil) h
  by_cases hbrace : c = '\x7b'
  · cases depth with
    | zero =>
      rw [hbrace, readValue_brace_zero] at h
      cases h
    | succ depth =>
      rw [hbrace, readValue_brace] at h
      split at h
      · cases h
        exact .obj List.nodup_nil fun m hm => absurd hm List.not_mem_nil
      · exact ih.members (fun d hd => absurd hd List.not_mem_nil) h
  · rw [readValue_atom hquote hbracket hbrace] at h
    exact distinct_of_readAtom h

theorem items_succ {done : List Json} (ih : ReadsDistinct fuel) (hdone : ∀ d ∈ done, d.Distinct)
    (h : readItems (fuel + 1) depth place text done = .ok (v, place', rest)) : v.Distinct := by
  rw [readItems] at h
  split at h
  · cases h
  · next item _ _ hitem =>
    have hall : ∀ d ∈ item :: done, d.Distinct := by
      intro d hd
      rcases List.mem_cons.mp hd with rfl | hd
      · exact ih.value hitem
      · exact hdone d hd
    split at h
    · cases h
      exact .arr fun v hv => hall v (List.mem_reverse.mp hv)
    · exact ih.items hall h
    · cases h

theorem members_succ {done : Members} (ih : ReadsDistinct fuel) (hdone : ∀ d ∈ done, d.2.Distinct)
    (h : readMembers (fuel + 1) depth place text done = .ok (v, place', rest)) : v.Distinct := by
  unfold readMembers at h
  split at h
  · split at h
    · cases h
    · next name _ _ _ =>
      split at h
      · dsimp only at h
        split at h
        · cases h
        · next item _ _ hitem =>
          have hall : ∀ d ∈ (name, item) :: done, d.2.Distinct := by
            intro d hd
            rcases List.mem_cons.mp hd with rfl | hd
            · exact ih.value hitem
            · exact hdone d hd
          split at h
          · cases h
            exact distinct_members fun m hm => hall m (List.mem_reverse.mp hm)
          · exact ih.members hall h
          · cases h
      · cases h
  · cases h

end ReadsDistinct

theorem readsDistinct (fuel : Nat) : ReadsDistinct fuel := by
  induction fuel with
  | zero => exact .zero
  | succ fuel ih => exact ⟨ih.value_succ, ih.items_succ, ih.members_succ⟩

/-- Every object in a value that was read has one member to a name. -/
theorem distinct_of_read (h : read text = .ok v) : v.Distinct := by
  simp only [read] at h
  split at h
  · cases h
  · split at h
    · cases h
    · next hvalue =>
      split at h <;> cases h
      exact (readsDistinct _).value hvalue

end SourceScan.Json
