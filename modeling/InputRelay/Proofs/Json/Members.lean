import InputRelay.Json.Form
import Mathlib.Data.List.Forall2
import Mathlib.Data.List.Nodup

namespace InputRelay.Json

/-- The members of an object that has some values under their names and lacks the others. -/
def membersOf (parts : List (String × Option Json)) : List (Literal × Json) :=
  parts.flatMap fun (name, v) ↦ v.toList.map fun v ↦ (.text name, v)

def HasParts (parts : List (String × Option Json)) (j : Json) : Prop :=
  ∃ ms, j = .object ms ∧ ms.Perm (membersOf parts)

theorem mapM_of_forall₂ {α β : Type} {f : α → Option β} {as : List α} {bs : List β}
    (h : List.Forall₂ (fun a b ↦ f a = some b) as bs) : as.mapM f = some bs := by
  induction h with
  | nil => rfl
  | cons hab _ ih => simp [List.mapM_cons, hab, ih]

theorem filter_membersOf_of_notMem {parts : List (String × Option Json)} {name : String}
    (h : name ∉ parts.map Prod.fst) :
    (membersOf parts).filter (·.1 == .text name) = [] := by
  rw [List.filter_eq_nil_iff]
  intro m hm hname
  obtain ⟨p, hp, hm⟩ := List.mem_flatMap.mp hm
  obtain ⟨v, -, rfl⟩ := List.mem_map.mp hm
  have heq : p.1 = name := by simpa using hname
  exact h (heq ▸ List.mem_map_of_mem hp)

theorem filter_membersOf {parts : List (String × Option Json)} (hnames : (parts.map Prod.fst).Nodup)
    {p : String × Option Json} (hp : p ∈ parts) :
    (membersOf parts).filter (·.1 == .text p.1) = p.2.toList.map fun v ↦ (.text p.1, v) := by
  induction parts with
  | nil => exact absurd hp List.not_mem_nil
  | cons q parts ih =>
    obtain ⟨hq, hnames⟩ := List.nodup_cons.mp hnames
    have hsplit : membersOf (q :: parts) =
        (q.2.toList.map fun v ↦ (.text q.1, v)) ++ membersOf parts := List.flatMap_cons
    rw [hsplit, List.filter_append]
    rcases List.mem_cons.mp hp with rfl | hp
    · rw [filter_membersOf_of_notMem hq, List.append_nil, List.filter_eq_self]
      intro m hm
      obtain ⟨v, -, rfl⟩ := List.mem_map.mp hm
      exact beq_self_eq_true _
    · have hne : q.1 ≠ p.1 := fun h ↦ hq (h ▸ List.mem_map_of_mem hp)
      rw [ih hnames hp, List.filter_eq_nil_iff.mpr, List.nil_append]
      intro m hm hname
      obtain ⟨v, -, rfl⟩ := List.mem_map.mp hm
      exact hne (by simpa using hname)

/-- What some members have under a name, unless there are several. -/
def under? (ms : List (Literal × Json)) (name : String) : Option (Option Json) :=
  match ms.filter (·.1 == .text name) with
  | [] => some none
  | [(_, v)] => some (some v)
  | _ => none

theorem members?_object {ms : List (Literal × Json)} (htext : ms.any (·.1 == .unpaired) = false)
    (names : List String) (needed : ℕ) :
    (object ms).members? names needed = names.mapM (under? ms) := by
  rw [members?, htext]
  rfl

theorem members?_object_unpaired {ms : List (Literal × Json)}
    (htext : ms.any (·.1 == .unpaired) = true) (names : List String) (needed : ℕ) :
    (object ms).members? names needed = none := by
  rw [members?, if_pos htext]

theorem under?_perm {ms ms' : List (Literal × Json)} (h : ms.Perm ms') (name : String) :
    under? ms' name = under? ms name := by
  have hperm := h.filter (·.1 == .text name)
  unfold under?
  rcases hms : ms.filter (·.1 == .text name) with _ | ⟨p, _ | ⟨q, rest⟩⟩
  · rw [hms] at hperm
    rw [List.nil_perm.mp hperm, hms]
  · rw [hms] at hperm
    rw [← List.singleton_perm.mp hperm, hms]
  · have hlength := hperm.length_eq
    rw [hms] at hlength
    rcases hms' : ms'.filter (·.1 == .text name) with _ | ⟨p', _ | ⟨q', rest'⟩⟩
    · simp [hms'] at hlength
    · simp [hms'] at hlength
    · rw [hms, hms']

theorem under?_cons_of_ne {k : Literal} {name : String} (h : k ≠ .text name) (v : Json)
    (ms : List (Literal × Json)) : under? ((k, v) :: ms) name = under? ms name := by
  rw [under?, List.filter_cons_of_neg (by simpa using h), under?]

/-- Whether a member is the only one under its name is not up to its value. -/
theorem under?_cons_self (name : String) (ms : List (Literal × Json)) :
    (∀ v, under? ((.text name, v) :: ms) name = some (some v)) ∨
      ∀ v, under? ((.text name, v) :: ms) name = none := by
  rcases hms : ms.filter (·.1 == .text name) with _ | ⟨p, rest⟩
  · left
    intro v
    rw [under?, List.filter_cons_of_pos (by simp), hms]
  · right
    intro v
    rw [under?, List.filter_cons_of_pos (by simp), hms]

theorem HasParts.members? {parts : List (String × Option Json)} {j : Json} (h : HasParts parts j)
    (hnames : (parts.map Prod.fst).Nodup) (needed : ℕ) :
    j.members? (parts.map Prod.fst) needed = some (parts.map Prod.snd) := by
  obtain ⟨ms, rfl, hperm⟩ := h
  have htext : ms.any (·.1 == .unpaired) = false := by
    rw [hperm.any_eq, List.any_eq_false]
    intro m hm
    obtain ⟨p, -, hm⟩ := List.mem_flatMap.mp hm
    obtain ⟨v, -, rfl⟩ := List.mem_map.mp hm
    simp
  rw [members?_object htext]
  apply mapM_of_forall₂
  rw [List.forall₂_map_left_iff, List.forall₂_map_right_iff, List.forall₂_same]
  intro p hp
  rw [under?]
  have hfilter := hperm.filter (·.1 == .text p.1)
  rw [filter_membersOf hnames hp] at hfilter
  cases hv : p.2 with
  | none =>
    rw [hv] at hfilter
    rw [List.perm_nil.mp hfilter]
  | some v =>
    rw [hv] at hfilter
    rw [List.perm_singleton.mp hfilter]

end InputRelay.Json
