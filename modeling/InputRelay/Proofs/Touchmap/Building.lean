import InputRelay.Proofs.Touchmap.Fingers
import InputRelay.Proofs.Touchmap.Table
import Mathlib.Data.List.DropRight
import Mathlib.Data.List.Nodup

namespace InputRelay

inductive BuilderCall
  | walk (center : Point) (radius : Int32)
  | control (code : ButtonCode) (center : Point) (kind : ControlKind)
  | build
deriving DecidableEq, Repr

namespace BuilderCall

def insertions (calls : List BuilderCall) : List BuilderCall :=
  calls.filter (· ≠ .build)

def countBuilt (calls : List BuilderCall) : ℕ :=
  (insertions (calls.rdropWhile (· ≠ .build))).length

/-- The insertions since the last build, each with its number among all insertions. -/
def pending (calls : List BuilderCall) : List (BuilderCall × ℕ) :=
  (insertions calls).zipIdx.drop (countBuilt calls)

def control? : BuilderCall × ℕ → Option Control
  | (.control code center kind, i) => some ⟨code, center, kind, .mapped i⟩
  | _ => none

def walk? : BuilderCall × ℕ → Option WalkControl
  | (.walk center radius, i) => some ⟨center, radius, .mapped i⟩
  | _ => none

def added (calls : List BuilderCall) : List Control :=
  (pending calls).filterMap control?

def lastWalk? (calls : List BuilderCall) : Option WalkControl :=
  ((pending calls).filterMap walk?).getLast?

variable (calls : List BuilderCall)

theorem insertions_build : insertions (calls ++ [.build]) = insertions calls := by
  simp [insertions]

theorem insertions_concat {call : BuilderCall} (h : call ≠ .build) :
    insertions (calls ++ [call]) = insertions calls ++ [call] := by
  simp [insertions, h]

theorem countBuilt_le : countBuilt calls ≤ (insertions calls).length := by
  have h := (List.rdropWhile_prefix (p := fun call ↦ decide (call ≠ .build)) (l := calls)).sublist
  exact (h.filter _).length_le

theorem countBuilt_build : countBuilt (calls ++ [.build]) = (insertions calls).length := by
  rw [countBuilt, List.rdropWhile_concat_neg _ _ _ (by simp), insertions_build]

theorem countBuilt_concat {call : BuilderCall} (h : call ≠ .build) :
    countBuilt (calls ++ [call]) = countBuilt calls := by
  rw [countBuilt, List.rdropWhile_concat_pos _ _ _ (by simpa using h), countBuilt]

theorem pending_build : pending (calls ++ [.build]) = [] := by
  rw [pending, countBuilt_build, insertions_build, List.drop_eq_nil_iff, List.length_zipIdx]

theorem pending_concat {call : BuilderCall} (h : call ≠ .build) :
    pending (calls ++ [call]) = pending calls ++ [(call, (insertions calls).length)] := by
  have hle := countBuilt_le calls
  rw [pending, countBuilt_concat calls h, insertions_concat calls h, List.zipIdx_append,
    List.drop_append_of_le_length (by simpa using hle)]
  simp [pending]

theorem pending_of_unbuilt {calls : List BuilderCall} (h : ∀ call ∈ calls, call ≠ .build) :
    pending calls = calls.zipIdx := by
  have hall : ∀ call ∈ calls, decide (call ≠ .build) = true :=
    fun call hc ↦ decide_eq_true (h call hc)
  have hcount : countBuilt calls = 0 := by
    rw [countBuilt, List.rdropWhile_eq_nil_iff.mpr hall]
    rfl
  rw [pending, hcount, List.drop_zero, insertions, List.filter_eq_self.mpr hall]

theorem added_concat {call : BuilderCall} (h : call ≠ .build) :
    added (calls ++ [call]) =
      added calls ++ (control? (call, (insertions calls).length)).toList := by
  rw [added, pending_concat calls h, List.filterMap_append]
  cases hc : control? (call, (insertions calls).length) <;> simp [added, hc]

theorem lastWalk?_concat {call : BuilderCall} (h : call ≠ .build) :
    lastWalk? (calls ++ [call]) =
      (walk? (call, (insertions calls).length)).or (lastWalk? calls) := by
  rw [lastWalk?, pending_concat calls h, List.filterMap_append]
  cases hc : walk? (call, (insertions calls).length) <;> simp [lastWalk?, hc]

theorem control?_finger {p : BuilderCall × ℕ} {c : Control} (h : control? p = some c) :
    c.finger = .mapped p.2 := by
  obtain ⟨_ | _ | _, i⟩ := p <;> cases h
  rfl

theorem walk?_finger {p : BuilderCall × ℕ} {w : WalkControl} (h : walk? p = some w) :
    w.finger = .mapped p.2 := by
  obtain ⟨_ | _ | _, i⟩ := p <;> cases h
  rfl

theorem map_finger_filterMap {α : Type} {f : BuilderCall × ℕ → Option α} {finger : α → PointerId}
    (hf : ∀ {p a}, f p = some a → finger a = .mapped p.2) (numbered : List (BuilderCall × ℕ)) :
    (numbered.filterMap f).map finger =
      (numbered.filter fun p ↦ (f p).isSome).map fun p ↦ .mapped p.2 := by
  induction numbered with
  | nil => rfl
  | cons p numbered ih =>
    cases hp : f p with
    | none => simp [hp, ih]
    | some a => simp [hp, ih, hf hp]

/-- The insertions whose controls a map has that is built now. -/
def kept : List (BuilderCall × ℕ) :=
  ((pending calls).filter fun p ↦ (walk? p).isSome).getLast?.toList ++
    (pending calls).filter fun p ↦ (control? p).isSome

theorem kept_subset : kept calls ⊆ pending calls := by
  intro p hp
  rcases List.mem_append.mp hp with hp | hp
  · exact List.mem_of_mem_filter (List.mem_of_getLast? (Option.mem_toList.mp hp))
  · exact List.mem_of_mem_filter hp

theorem nodup_numbered : (insertions calls).zipIdx.Nodup :=
  .of_map Prod.snd (List.zipIdx_map_snd 0 _ ▸ List.nodup_range')

theorem nodup_kept : (kept calls).Nodup := by
  have hpending : (pending calls).Nodup := (nodup_numbered calls).sublist (List.drop_sublist _ _)
  refine List.nodup_append.mpr ⟨?_, hpending.filter _, ?_⟩
  · cases ((pending calls).filter fun p ↦ (walk? p).isSome).getLast? <;> simp
  · rintro ⟨call, i⟩ hwalk p hcontrol rfl
    have hwalk := (List.mem_filter.mp (List.mem_of_getLast? (Option.mem_toList.mp hwalk))).2
    have hcontrol := (List.mem_filter.mp hcontrol).2
    cases call <;> simp [walk?, control?] at hwalk hcontrol

end BuilderCall

namespace TouchmapBuilder

open BuilderCall

def call (b : TouchmapBuilder) : BuilderCall → Option Touchmap × TouchmapBuilder
  | .walk center radius => (none, b.setWalk center radius)
  | .control code center kind => (none, b.addControl code center kind)
  | .build => (some b.build.1, b.build.2)

def run (b : TouchmapBuilder) : List BuilderCall → List Touchmap × TouchmapBuilder
  | [] => ([], b)
  | call :: calls =>
    ((b.call call).1.toList ++ ((b.call call).2.run calls).1, ((b.call call).2.run calls).2)

theorem run_append (b : TouchmapBuilder) (calls calls' : List BuilderCall) :
    b.run (calls ++ calls') =
      ((b.run calls).1 ++ ((b.run calls).2.run calls').1, ((b.run calls).2.run calls').2) := by
  induction calls generalizing b with
  | nil => rfl
  | cons call calls ih => simp only [List.cons_append, run, ih, List.append_assoc]

theorem run_concat (b : TouchmapBuilder) (calls : List BuilderCall) (call : BuilderCall) :
    b.run (calls ++ [call]) = ((b.run calls).1 ++ ((b.run calls).2.call call).1.toList,
      ((b.run calls).2.call call).2) := by
  simp [run_append, run]

/-- A builder holds what was inserted since the last build, and has handed out one finger for each
insertion. -/
theorem builder_run (calls : List BuilderCall) :
    (run {} calls).2 =
      ⟨lastWalk? calls, added calls, .mapped (insertions calls).length⟩ := by
  induction calls using List.reverseRecOn with
  | nil => rfl
  | append_singleton calls call ih =>
    rw [run_concat, ih]
    cases call with
    | walk center radius =>
      rw [added_concat calls (by simp), lastWalk?_concat calls (by simp),
        insertions_concat calls (by simp)]
      simp [TouchmapBuilder.call, setWalk, takeFinger, control?, walk?, mapped_succ]
    | control code center kind =>
      rw [added_concat calls (by simp), lastWalk?_concat calls (by simp),
        insertions_concat calls (by simp)]
      simp [TouchmapBuilder.call, addControl, takeFinger, control?, walk?, mapped_succ]
    | build =>
      simp [TouchmapBuilder.call, build, added, lastWalk?, pending_build, insertions_build]

theorem fingers_build_run (calls : List BuilderCall) :
    (run {} calls).2.build.1.fingers.Perm ((kept calls).map fun p ↦ .mapped p.2) := by
  have hwalk : (lastWalk? calls).toList.map (·.finger) =
      ((pending calls).filter fun p ↦ (walk? p).isSome).getLast?.toList.map
        fun p ↦ PointerId.mapped p.2 := by
    simp only [lastWalk?, ← Option.toList_map, ← List.getLast?_map,
      map_finger_filterMap walk?_finger]
  rw [builder_run, kept, List.map_append, ← hwalk, ← map_finger_filterMap control?_finger]
  exact List.Perm.append_left _ ((List.mergeSort_perm _ _).map _)

/-- All maps of one builder together have a finger for each of some insertions before the last
build, no two of them the same. -/
theorem fingers_run (calls : List BuilderCall) :
    ∃ ps : List (BuilderCall × ℕ), ps.Nodup ∧
      ps ⊆ (insertions calls).zipIdx.take (countBuilt calls) ∧
      ((run {} calls).1.flatMap Touchmap.fingers).Perm (ps.map fun p ↦ .mapped p.2) := by
  induction calls using List.reverseRecOn with
  | nil => exact ⟨[], List.nodup_nil, List.nil_subset _, .refl _⟩
  | append_singleton calls call ih =>
    obtain ⟨ps, hnodup, hsub, hperm⟩ := ih
    by_cases hcall : call = .build
    · subst call
      refine ⟨ps ++ kept calls, ?_, ?_, ?_⟩
      · have hdisjoint := List.disjoint_take_drop (nodup_numbered calls)
          (Nat.le_refl (countBuilt calls))
        exact List.nodup_append'.mpr ⟨hnodup, nodup_kept calls,
          fun _ hp hk ↦ hdisjoint (hsub hp) (kept_subset calls hk)⟩
      · rw [countBuilt_build, insertions_build, List.take_of_length_le (by simp)]
        refine List.append_subset.mpr ⟨fun p hp ↦ List.mem_of_mem_take (hsub hp), ?_⟩
        exact fun p hp ↦ List.mem_of_mem_drop (kept_subset calls hp)
      · rw [run_concat, List.map_append, List.flatMap_append]
        exact hperm.append (by simpa [TouchmapBuilder.call] using fingers_build_run calls)
    · refine ⟨ps, hnodup, ?_, ?_⟩
      · rw [countBuilt_concat calls hcall, insertions_concat calls hcall, List.zipIdx_append,
          List.take_append_of_le_length (by simpa using countBuilt_le calls)]
        exact hsub
      · have hnone : ((run {} calls).2.call call).1 = none := by
          cases call with
          | walk center radius => rfl
          | control code center kind => rfl
          | build => exact absurd rfl hcall
        rw [run_concat, hnone]
        simpa using hperm

theorem nodup_fingers_run {calls : List BuilderCall}
    (h : (insertions calls).length < 2 ^ 64 - 104) :
    ((run {} calls).1.flatMap Touchmap.fingers).Nodup ∧
      ∀ f ∈ (run {} calls).1.flatMap Touchmap.fingers, f ∉ PointerId.reserved := by
  obtain ⟨ps, hnodup, hsub, hperm⟩ := fingers_run calls
  have hnumbered : ∀ p ∈ ps, (insertions calls)[p.2]? = some p.1 := by
    intro p hp
    exact List.mk_mem_zipIdx_iff_getElem?.mp (List.mem_of_mem_take (hsub hp))
  have hlt : ∀ p ∈ ps, p.2 < (insertions calls).length := by
    intro p hp
    exact (List.getElem?_eq_some_iff.mp (hnumbered p hp)).1
  constructor
  · rw [hperm.nodup_iff]
    refine List.Nodup.map_on (fun p hp q hq hpq ↦ ?_) hnodup
    have hp' := hlt p hp
    have hq' := hlt q hq
    have hnumber := PointerId.mapped_inj (by omega) (by omega) hpq
    have hcall : some p.1 = some q.1 := by
      rw [← hnumbered p hp, ← hnumbered q hq, hnumber]
    exact Prod.ext (Option.some.inj hcall) hnumber
  · intro f hf
    obtain ⟨p, hp, rfl⟩ := List.mem_map.mp (hperm.subset hf)
    have hp' := hlt p hp
    exact PointerId.mapped_not_mem_reserved (by omega)

theorem run_build (b : TouchmapBuilder) (before after : List BuilderCall) :
    (b.run (before ++ .build :: after)).1 =
      (b.run before).1 ++ (b.run before).2.build.1 :: ((b.run before).2.build.2.run after).1 := by
  rw [run_append]
  rfl

/-- Whatever is done to a builder, the insertion number `i` has the finger `100 + i`, the builder
holds what was inserted since the last build, and each build makes a table of it. In this table the
lookup finds the first control that was added with a code. All maps of the builder together have
distinct fingers. -/
theorem builds_in_order {calls : List BuilderCall}
    (h : (insertions calls).length < 2 ^ 64 - 104) :
    (run {} calls).2 = ⟨lastWalk? calls, added calls, .mapped (insertions calls).length⟩ ∧
    ((run {} calls).1.flatMap Touchmap.fingers).Nodup ∧
    (∀ f ∈ (run {} calls).1.flatMap Touchmap.fingers, f ∉ PointerId.reserved) ∧
    ∀ before after, calls = before ++ .build :: after →
      ∃ m rest, (run {} calls).1 = (run {} before).1 ++ m :: rest ∧
        m.walk = lastWalk? before ∧ Tabulates (added before) m.controls ∧
        (∀ code i c, m.lookup? code = some (i, c) ↔ code ≠ .invalid ∧
          (added before).find? (·.code = code) = some c ∧ m.controls[i]? = some c) ∧
        ∀ code, m.lookup? code = none ↔ code = .invalid ∨ ∀ c ∈ added before, c.code ≠ code := by
  obtain ⟨hnodup, hreserved⟩ := nodup_fingers_run h
  refine ⟨builder_run calls, hnodup, hreserved, ?_⟩
  rintro before after rfl
  have hrun := run_build {} before after
  refine ⟨_, _, hrun, ?_⟩
  rw [hrun, List.flatMap_append, List.flatMap_cons, List.nodup_append, List.nodup_append] at hnodup
  obtain ⟨-, ⟨hfingers, -, -⟩, -⟩ := hnodup
  have hcontrols := (List.nodup_append.mp hfingers).2.1.of_map
  rw [builder_run] at hcontrols ⊢
  have htable : Tabulates (added before) _ := tabulates_mergeSort (added before)
  exact ⟨rfl, htable, fun code i c ↦ Touchmap.lookup?_eq_some_iff_find? htable hcontrols,
    fun code ↦ Touchmap.lookup?_eq_none_iff_added htable⟩

theorem builds_in_order_reuse :
    let first : List BuilderCall := [.walk ⟨1, 1⟩ 5, .walk ⟨2, 2⟩ 6, .control ⟨1⟩ ⟨3, 3⟩ .button,
      .control ⟨0⟩ ⟨4, 4⟩ .button, .control ⟨0⟩ ⟨5, 5⟩ (.skill 7)]
    let second : List BuilderCall := [.control .invalid ⟨6, 6⟩ .button]
    let calls := first ++ .build :: (second ++ [.build])
    (insertions calls).length < 2 ^ 64 - 104 ∧
      (∃ m rest, (run {} calls).1 = m :: rest ∧ m.walk = some ⟨⟨2, 2⟩, 6, ⟨101⟩⟩ ∧
        (∃ i, m.lookup? ⟨0⟩ = some (i, ⟨⟨0⟩, ⟨4, 4⟩, .button, ⟨103⟩⟩)) ∧ m.lookup? ⟨2⟩ = none) ∧
      ∃ m, (run {} calls).1[1]? = some m ∧
        m.controls.Perm [⟨.invalid, ⟨6, 6⟩, .button, ⟨105⟩⟩] ∧ m.lookup? .invalid = none := by
  intro first second calls
  have hcalls : (insertions calls).length < 2 ^ 64 - 104 := by decide
  obtain ⟨-, -, -, hbuild⟩ := builds_in_order hcalls
  refine ⟨hcalls, ?_, ?_⟩
  · obtain ⟨m, rest, hrun, hwalk, htable, hlookup, hnone⟩ :=
      hbuild first (second ++ [.build]) rfl
    have hmem : ⟨⟨0⟩, ⟨4, 4⟩, .button, ⟨103⟩⟩ ∈ m.controls := htable.perm.mem_iff.mpr (by decide)
    obtain ⟨i, hi⟩ := List.mem_iff_getElem?.mp hmem
    exact ⟨m, rest, hrun, hwalk, ⟨i, (hlookup ⟨0⟩ i _).mpr ⟨by decide, by decide, hi⟩⟩,
      (hnone ⟨2⟩).mpr (by decide)⟩
  · obtain ⟨m, rest, hrun, -, htable, -, hnone⟩ := hbuild (first ++ .build :: second) [] rfl
    refine ⟨m, ?_, htable.perm, (hnone .invalid).mpr (Or.inl rfl)⟩
    rw [hrun, run_build]
    rfl

end TouchmapBuilder

end InputRelay
