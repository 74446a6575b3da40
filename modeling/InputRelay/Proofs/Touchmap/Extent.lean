import InputRelay.Proofs.Json.Members
import InputRelay.Proofs.Json.Soundness
import InputRelay.Proofs.Touchmap.Fingers

namespace InputRelay

theorem map_eq_of_mapM {α β : Type} {f : α → Option β} {as : List α} {bs : List β}
    (h : as.mapM f = some bs) : as.map f = bs.map some := by
  induction as generalizing bs with
  | nil =>
    cases h
    rfl
  | cons a as ih =>
    simp only [List.mapM_cons, Option.bind_eq_bind, Option.bind_eq_some_iff] at h
    obtain ⟨b, hb, bs', hbs, h⟩ := h
    cases h
    rw [List.map_cons, List.map_cons, hb, ih hbs]

namespace Json

theorem Token.HasText.length_pos {t : Token} {cs : List Char} (h : t.HasText cs) :
    0 < cs.length := by
  cases h with
  | fixed h =>
    have hfixed : ∀ p ∈ Token.fixed, 0 < p.2.length := by simp [Token.fixed]
    exact hfixed _ h
  | string h =>
    obtain ⟨body, rfl, -⟩ := h.scan
    exact Nat.succ_pos _
  | number h =>
    obtain ⟨c, cs, rfl, -⟩ := h.head
    exact Nat.succ_pos _

theorem HaveText.length_le {ts : List Token} {s : List Char} (h : HaveText ts s) :
    ts.length ≤ s.length := by
  induction h with
  | nil => exact Nat.zero_le _
  | cons hb ht hs ih =>
    have hpos := ht.length_pos
    simp only [List.length_cons, List.length_append]
    omega

def extent (v : Json) : ℕ :=
  v.tokens.length

theorem extent_pos (v : Json) : 0 < v.extent := by
  cases v <;> simp [extent, tokens]

/-- An item takes a token, and another one sets it apart from the next. -/
theorem extent_items {items : List Json} :
    2 * items.length ≤ (array items).extent ∧ ∀ v ∈ items, v.extent ≤ (array items).extent := by
  simp only [extent, tokens, List.length_cons]
  induction items with
  | nil => simp
  | cons v items ih =>
    have hpos := v.extent_pos
    rw [extent] at hpos
    cases items with
    | nil =>
      simp only [itemTokens, List.length_append, List.length_singleton, List.mem_singleton,
        forall_eq]
      omega
    | cons w items =>
      rw [itemTokens_cons (by simp), List.length_append, @List.length_cons _ v,
        @List.length_cons _ Token.comma, List.forall_mem_cons]
      refine ⟨by omega, by omega, fun u hu ↦ ?_⟩
      have hle := ih.2 u hu
      omega

theorem extent_member {members : List (Literal × Json)} {p : Literal × Json} (hp : p ∈ members) :
    p.2.extent ≤ (object members).extent := by
  simp only [extent, tokens, List.length_cons]
  induction members with
  | nil => cases hp
  | cons q members ih =>
    cases members with
    | nil =>
      obtain rfl := List.mem_singleton.mp hp
      simp only [memberTokens, List.length_append, List.length_cons]
      omega
    | cons r members =>
      rw [memberTokens_cons (by simp)]
      simp only [List.length_append, List.length_cons]
      rcases List.mem_cons.mp hp with rfl | hp
      · omega
      · have hle := ih hp
        omega

theorem extent_of_members? {j v : Json} {names : List String} {needed : ℕ}
    {vs : List (Option Json)} (h : j.members? names needed = some vs) (hv : some v ∈ vs) :
    v.extent ≤ j.extent := by
  unfold members? at h
  split at h
  · rename_i ms
    split at h
    · cases h
    · have hmem : some (some v) ∈ vs.map some := List.mem_map_of_mem hv
      rw [← map_eq_of_mapM h] at hmem
      obtain ⟨name, -, hunder⟩ := List.mem_map.mp hmem
      split at hunder <;> cases hunder
      rename_i k hfilter
      have hk : (k, v) ∈ ms.filter (·.1 == .text name) := by simp [hfilter]
      exact extent_member (List.mem_of_mem_filter hk)
  · rename_i items
    split at h
    · cases h
      rcases List.mem_append.mp hv with hv | hv
      · obtain ⟨w, hw, he⟩ := List.mem_map.mp hv
        cases he
        exact extent_items.2 v hw
      · cases List.eq_of_mem_replicate hv
    · cases h
  · cases h

end Json

namespace TouchmapDocument

open Form Json

theorem two_mul_length_le_of_list? {α : Type} {item? : Json → Option α} {v : Option Json}
    {as : List α} (h : list? item? v = some as) {n : ℕ} (hv : ∀ j, v = some j → j.extent ≤ n) :
    2 * as.length ≤ n := by
  unfold list? at h
  split at h
  · cases h
    exact Nat.zero_le n
  · rename_i items
    have hlength := congrArg List.length (map_eq_of_mapM h)
    rw [List.length_map, List.length_map] at hlength
    rw [← hlength]
    exact Nat.le_trans extent_items.1 (hv _ rfl)
  · cases h

theorem two_mul_length_le_of_mappings {j : Json} {m : Mappings} (h : ofJson? j = some m) :
    2 * m.buttons.length ≤ j.extent ∧ 2 * m.skills.length ≤ j.extent := by
  obtain ⟨vs, hvs, h⟩ := Option.bind_eq_some_iff.mp (show Option.bind _ _ = some m from h)
  split at h
  · rename_i walk buttons skills
    simp only [Option.bind_eq_bind, Option.bind_eq_some_iff] at h
    obtain ⟨w, -, bs, hbuttons, ss, hskills, h⟩ := h
    cases h
    constructor
    · refine two_mul_length_le_of_list? hbuttons fun v hv ↦ extent_of_members? hvs ?_
      simp [hv]
    · refine two_mul_length_le_of_list? hskills fun v hv ↦ extent_of_members? hvs ?_
      simp [hv]
  · cases h

theorem two_mul_length_le_of_document {j : Json} {m : Mappings}
    (h : ofJson? j = some (⟨some m⟩ : TouchmapDocument)) :
    2 * m.buttons.length ≤ j.extent ∧ 2 * m.skills.length ≤ j.extent := by
  obtain ⟨vs, hvs, h⟩ := Option.bind_eq_some_iff.mp (show Option.bind _ _ = some _ from h)
  split at h
  · rename_i mappings
    simp only [Option.bind_eq_bind, Option.bind_eq_some_iff] at h
    obtain ⟨_, hmappings, h⟩ := h
    cases h
    unfold optional? at hmappings
    split at hmappings
    · cases hmappings
    · cases hmappings
    · rename_i v
      obtain ⟨m', hm, he⟩ := Option.map_eq_some_iff.mp hmappings
      cases he
      have hv := extent_of_members? hvs (List.mem_singleton_self _)
      obtain ⟨hbuttons, hskills⟩ := two_mul_length_le_of_mappings hm
      exact ⟨Nat.le_trans hbuttons hv, Nat.le_trans hskills hv⟩
  · cases h

end TouchmapDocument

namespace TouchmapBuilder

theorem length_fingers_foldl_le {α : Type} (add : TouchmapBuilder → α → TouchmapBuilder)
    (hadd : ∀ b a, (add b a).fingers.length ≤ b.fingers.length + 1) (entries : List α)
    (b : TouchmapBuilder) :
    (entries.foldl add b).fingers.length ≤ b.fingers.length + entries.length := by
  induction entries generalizing b with
  | nil => exact Nat.le_refl _
  | cons a entries ih =>
    have hle := ih (add b a)
    have hone := hadd b a
    simp only [List.foldl_cons, List.length_cons]
    omega

theorem length_fingers_addControl (b : TouchmapBuilder) (code : ButtonCode) (center : Point)
    (kind : ControlKind) :
    (b.addControl code center kind).fingers.length = b.fingers.length + 1 := by
  simp [fingers, addControl, takeFinger, Nat.add_assoc]

theorem length_fingers_addButtonEntry_le (b : TouchmapBuilder) (e : ButtonEntry) :
    (b.addButtonEntry e).fingers.length ≤ b.fingers.length + 1 := by
  rcases e with ⟨_ | touch, _ | name⟩ <;> simp [addButtonEntry, length_fingers_addControl]

theorem length_fingers_addSkillEntry_le (b : TouchmapBuilder) (e : SkillEntry) :
    (b.addSkillEntry e).fingers.length ≤ b.fingers.length + 1 := by
  rcases e with ⟨_ | center, _ | radius, _ | name⟩ <;>
    simp [addSkillEntry, length_fingers_addControl]

end TouchmapBuilder

theorem Mappings.length_fingers_le (m : Mappings) :
    m.touchmap.fingers.length ≤ 1 + m.buttons.length + m.skills.length := by
  have hwalk : (m.walk.toList.foldl TouchmapBuilder.addWalkEntry {}).fingers.length ≤ 1 := by
    rcases m.walk with _ | ⟨_ | center, _ | radius⟩
    · exact Nat.zero_le 1
    · exact Nat.zero_le 1
    · exact Nat.zero_le 1
    · exact Nat.zero_le 1
    · exact Nat.le_refl 1
  have hbuttons := TouchmapBuilder.length_fingers_foldl_le TouchmapBuilder.addButtonEntry
    TouchmapBuilder.length_fingers_addButtonEntry_le m.buttons
    (m.walk.toList.foldl TouchmapBuilder.addWalkEntry {})
  have hskills := TouchmapBuilder.length_fingers_foldl_le TouchmapBuilder.addSkillEntry
    TouchmapBuilder.length_fingers_addSkillEntry_le m.skills (m.buttons.foldl
      TouchmapBuilder.addButtonEntry (m.walk.toList.foldl TouchmapBuilder.addWalkEntry {}))
  rw [touchmap, TouchmapBuilder.length_fingers_build]
  omega

/-- A touchmap has at most one control more than its text has characters. -/
theorem Touchmap.length_fingers_le {s : String} {map : Touchmap} (h : ofText s = .ok map) :
    map.fingers.length ≤ s.length + 1 := by
  unfold ofText at h
  split at h
  · cases h
  · cases h
  · rename_i m hread
    cases h
    obtain ⟨j, hj, hm⟩ := Option.bind_eq_some_iff.mp hread
    have htext : j.extent ≤ s.toList.length := (Json.hasText_of_read hj).length_le
    obtain ⟨hbuttons, hskills⟩ := TouchmapDocument.two_mul_length_le_of_document hm
    have hfingers := m.length_fingers_le
    rw [String.length_toList] at htext
    omega

end InputRelay
