import InputRelay.Proofs.Form.Lossless
import InputRelay.Proofs.Touchmap.Building
import InputRelay.Touchmap.Document

namespace InputRelay

open Form Json

namespace Json

variable {α : Type}

/-- A part that is missing is left out or `null`. -/
inductive OptionalPart (represents : Json → α → Prop) : Option Json → Option α → Prop
  | omitted : OptionalPart represents none none
  | null : OptionalPart represents (some .null) none
  | given {j : Json} {a : α} (h : represents j a) : OptionalPart represents (some j) (some a)

/-- A list is an array, and without items it may be left out. -/
inductive ListPart (represents : Json → α → Prop) : Option Json → List α → Prop
  | omitted : ListPart represents none []
  | given {js : List Json} {as : List α} (h : List.Forall₂ represents js as) :
      ListPart represents (some (.array js)) as

def RepresentsInt (j : Json) (i : Int32) : Prop :=
  j = .ofInt i.toInt

def RepresentsText (j : Json) (s : String) : Prop :=
  j = .text s

def RepresentsPoint (j : Json) (p : Point) : Prop :=
  ∃ x y, j.HasParts [("x", some x), ("y", some y)] ∧ x.RepresentsInt p.x ∧ y.RepresentsInt p.y

def RepresentsWalk (j : Json) (e : WalkEntry) : Prop :=
  ∃ center radius, j.HasParts [("center", center), ("radius", radius)] ∧
    OptionalPart RepresentsPoint center e.center ∧ OptionalPart RepresentsInt radius e.radius

def RepresentsButton (j : Json) (e : ButtonEntry) : Prop :=
  ∃ touch name, j.HasParts [("touch", touch), ("button", name)] ∧
    OptionalPart RepresentsPoint touch e.touch ∧ OptionalPart RepresentsText name e.button

def RepresentsSkill (j : Json) (e : SkillEntry) : Prop :=
  ∃ center radius name,
    j.HasParts [("center", center), ("radius", radius), ("button", name)] ∧
    OptionalPart RepresentsPoint center e.center ∧ OptionalPart RepresentsInt radius e.radius ∧
    OptionalPart RepresentsText name e.button

def RepresentsMappings (j : Json) (m : Mappings) : Prop :=
  ∃ walk buttons skills,
    j.HasParts [("walk_control", walk), ("button_mappings", buttons), ("skill_casting", skills)] ∧
    OptionalPart RepresentsWalk walk m.walk ∧ ListPart RepresentsButton buttons m.buttons ∧
    ListPart RepresentsSkill skills m.skills

def RepresentsDocument (j : Json) (d : TouchmapDocument) : Prop :=
  ∃ mappings, j.HasParts [("mappings", mappings)] ∧
    OptionalPart RepresentsMappings mappings d.mappings

section Reading

variable [Form α] {represents : Json → α → Prop}

structure Readable (represents : Json → α → Prop) : Prop where
  read : ∀ {j a}, represents j a → ofJson? j = some a
  null : (ofJson? .null : Option α) = none

theorem Readable.optional (hread : Readable represents) {v : Option Json} {a : Option α}
    (h : OptionalPart represents v a) : TouchmapDocument.optional? v = some a := by
  cases h with
  | omitted => rfl
  | null => rfl
  | @given j a h =>
    have hj := hread.read h
    have hne : j ≠ .null := by
      rintro rfl
      rw [hread.null] at hj
      cases hj
    rw [TouchmapDocument.optional?.eq_3 _ hne, hj, Option.map_some]

theorem Readable.list (hread : Readable represents) {v : Option Json} {as : List α}
    (h : ListPart represents v as) : TouchmapDocument.list? ofJson? v = some as := by
  cases h with
  | omitted => rfl
  | given h => exact mapM_of_forall₂ (h.imp fun _ _ ↦ hread.read)

theorem readable_int : Readable RepresentsInt where
  read {j i} h := by
    rw [(h : j = toJson i)]
    exact Lossless.ofJson?_toJson i
  null := rfl

theorem readable_text : Readable RepresentsText where
  read h := h ▸ rfl
  null := rfl

theorem readable_point : Readable RepresentsPoint where
  read {j p} h := by
    obtain ⟨x, y, hparts, hx, hy⟩ := h
    have hmembers : j.members? ["x", "y"] 2 = some [some x, some y] :=
      hparts.members? (by simp) 2
    have hrecord : j.record? ["x", "y"] = some [x, y] := by
      simp [record?, hmembers]
    calc ofJson? j = (ofJson? x).bind fun x ↦ (ofJson? y).bind fun y ↦ some ⟨x, y⟩ := by
          show (j.record? ["x", "y"]).bind _ = _
          rw [hrecord]
          rfl
      _ = some p := by
          rw [readable_int.read hx, readable_int.read hy]
          rfl
  null := rfl

theorem readable_walk : Readable RepresentsWalk where
  read {j e} h := by
    obtain ⟨center, radius, hparts, hcenter, hradius⟩ := h
    have hmembers : j.members? ["center", "radius"] 2 = some [center, radius] :=
      hparts.members? (by simp) 2
    simp [ofJson?, hmembers, readable_point.optional hcenter, readable_int.optional hradius]
  null := rfl

theorem readable_button : Readable RepresentsButton where
  read {j e} h := by
    obtain ⟨touch, name, hparts, htouch, hname⟩ := h
    have hmembers : j.members? ["touch", "button"] 2 = some [touch, name] :=
      hparts.members? (by simp) 2
    simp [ofJson?, hmembers, readable_point.optional htouch, readable_text.optional hname]
  null := rfl

theorem readable_skill : Readable RepresentsSkill where
  read {j e} h := by
    obtain ⟨center, radius, name, hparts, hcenter, hradius, hname⟩ := h
    have hmembers : j.members? ["center", "radius", "button"] 3 = some [center, radius, name] :=
      hparts.members? (by simp) 3
    simp [ofJson?, hmembers, readable_point.optional hcenter, readable_int.optional hradius,
      readable_text.optional hname]
  null := rfl

theorem readable_mappings : Readable RepresentsMappings where
  read {j m} h := by
    obtain ⟨walk, buttons, skills, hparts, hwalk, hbuttons, hskills⟩ := h
    have hmembers : j.members? ["walk_control", "button_mappings", "skill_casting"] 1 =
        some [walk, buttons, skills] := hparts.members? (by simp) 1
    have hbuttons := readable_button.list hbuttons
    have hskills := readable_skill.list hskills
    calc ofJson? j = (TouchmapDocument.optional? walk).bind fun w ↦
          (TouchmapDocument.list? ofJson? buttons).bind fun bs ↦
            (TouchmapDocument.list? ofJson? skills).bind fun ss ↦ some ⟨w, bs, ss⟩ := by
          show (j.members? ["walk_control", "button_mappings", "skill_casting"] 1).bind _ = _
          rw [hmembers]
          rfl
      _ = some m := by
          rw [readable_walk.optional hwalk, hbuttons, hskills]
          rfl
  null := rfl

theorem readable_document : Readable RepresentsDocument where
  read {j d} h := by
    obtain ⟨mappings, hparts, hmappings⟩ := h
    have hmembers : j.members? ["mappings"] 1 = some [mappings] := hparts.members? (by simp) 1
    simp [ofJson?, hmembers, readable_mappings.optional hmappings]
  null := rfl

end Reading

end Json

def WalkEntry.insertion? : WalkEntry → Option BuilderCall
  | ⟨some center, some radius⟩ => some (.walk center radius)
  | _ => none

def ButtonEntry.insertion? : ButtonEntry → Option BuilderCall
  | ⟨some touch, some name⟩ => some (.control (Touchmap.codeOfName name) touch .button)
  | _ => none

def SkillEntry.insertion? : SkillEntry → Option BuilderCall
  | ⟨some center, some radius, some name⟩ =>
    some (.control (Touchmap.codeOfName name) center (.skill radius))
  | _ => none

namespace Mappings

variable (m : Mappings)

def insertions : List BuilderCall :=
  m.walk.toList.filterMap WalkEntry.insertion? ++
    (m.buttons.filterMap ButtonEntry.insertion? ++ m.skills.filterMap SkillEntry.insertion?)

def walkControl : Option WalkControl :=
  match m.walk with
  | some ⟨some center, some radius⟩ => some ⟨center, radius, .firstMapped⟩
  | _ => none

def controls : List Control :=
  m.insertions.zipIdx.filterMap BuilderCall.control?

theorem foldl_run {α : Type} {add : TouchmapBuilder → α → TouchmapBuilder}
    {insertion? : α → Option BuilderCall}
    (hadd : ∀ b a, add b a = (b.run (insertion? a).toList).2) (entries : List α)
    (b : TouchmapBuilder) : entries.foldl add b = (b.run (entries.filterMap insertion?)).2 := by
  induction entries generalizing b with
  | nil => rfl
  | cons a entries ih =>
    rw [List.foldl_cons, ih, hadd]
    cases ha : insertion? a with
    | none => rw [List.filterMap_cons_none ha]; rfl
    | some call => rw [List.filterMap_cons_some ha]; rfl

theorem touchmap_eq_build : m.touchmap = (TouchmapBuilder.run {} m.insertions).2.build.1 := by
  have hwalk := @foldl_run _ TouchmapBuilder.addWalkEntry WalkEntry.insertion?
    (by rintro b ⟨_ | _, _ | _⟩ <;> rfl)
  have hbutton := @foldl_run _ TouchmapBuilder.addButtonEntry ButtonEntry.insertion?
    (by rintro b ⟨_ | _, _ | _⟩ <;> rfl)
  have hskill := @foldl_run _ TouchmapBuilder.addSkillEntry SkillEntry.insertion?
    (by rintro b ⟨_ | _, _ | _, _ | _⟩ <;> rfl)
  rw [touchmap, hwalk, hbutton, hskill, insertions, TouchmapBuilder.run_append,
    TouchmapBuilder.run_append]

theorem control_of_mem {call : BuilderCall}
    (h : call ∈ m.buttons.filterMap ButtonEntry.insertion? ++
      m.skills.filterMap SkillEntry.insertion?) :
    ∃ code center kind, call = .control code center kind := by
  rcases List.mem_append.mp h with h | h
  · obtain ⟨⟨_ | touch, _ | name⟩, -, he⟩ := List.mem_filterMap.mp h <;> cases he
    exact ⟨_, _, _, rfl⟩
  · obtain ⟨⟨_ | center, _ | radius, _ | name⟩, -, he⟩ := List.mem_filterMap.mp h <;> cases he
    exact ⟨_, _, _, rfl⟩

theorem ne_build_of_mem {call : BuilderCall} (h : call ∈ m.insertions) : call ≠ .build := by
  rcases List.mem_append.mp h with h | h
  · obtain ⟨⟨_ | center, _ | radius⟩, -, he⟩ := List.mem_filterMap.mp h <;> cases he
    simp
  · obtain ⟨code, center, kind, rfl⟩ := m.control_of_mem h
    simp

theorem pending_insertions : BuilderCall.pending m.insertions = m.insertions.zipIdx :=
  BuilderCall.pending_of_unbuilt fun _ h ↦ m.ne_build_of_mem h

theorem lastWalk?_insertions : BuilderCall.lastWalk? m.insertions = m.walkControl := by
  have hcontrols : ∀ n, ((m.buttons.filterMap ButtonEntry.insertion? ++
      m.skills.filterMap SkillEntry.insertion?).zipIdx n).filterMap BuilderCall.walk? = [] := by
    intro n
    rw [List.filterMap_eq_nil_iff]
    intro p hp
    obtain ⟨code, center, kind, hcall⟩ := m.control_of_mem (List.fst_mem_of_mem_zipIdx hp)
    obtain ⟨call, i⟩ := p
    subst hcall
    rfl
  rw [BuilderCall.lastWalk?, pending_insertions, insertions, List.zipIdx_append,
    List.filterMap_append, hcontrols, List.append_nil, walkControl]
  rcases m.walk with _ | ⟨_ | center, _ | radius⟩ <;> rfl

/-- The touchmap of a document has the controls of its complete entries, in ascending order of
their codes. -/
theorem touchmap_eq : ∃ table, m.touchmap = ⟨m.walkControl, table⟩ ∧
    Tabulates m.controls table := by
  have hadded : BuilderCall.added m.insertions = m.controls := by
    rw [BuilderCall.added, pending_insertions, controls]
  rw [touchmap_eq_build, TouchmapBuilder.builder_run, hadded, lastWalk?_insertions]
  exact ⟨_, rfl, tabulates_mergeSort m.controls⟩

end Mappings

namespace Touchmap

/-- Whatever text a document is written as, it is read as the touchmap of its complete entries;
without mappings it is refused. -/
theorem ofText_written {d : TouchmapDocument} {j : Json} {s : String}
    (hj : j.RepresentsDocument d) (hs : j.Writes s.toList) :
    (d.mappings = none → ofText s = .error .missingMappings) ∧
    ∀ m, d.mappings = some m →
      ∃ table, ofText s = .ok ⟨m.walkControl, table⟩ ∧ Tabulates m.controls table := by
  have hread : (Form.read? s : Option TouchmapDocument) = some d := by
    rw [Form.read?, read_of_writes hs, Option.bind_some, readable_document.read hj]
  obtain ⟨mappings⟩ := d
  constructor
  · rintro rfl
    rw [ofText, hread]
  · rintro m rfl
    obtain ⟨table, hmap, htable⟩ := m.touchmap_eq
    exact ⟨table, by rw [ofText, hread, ← hmap], htable⟩

theorem ofText_written_incomplete :
    let d : TouchmapDocument := ⟨some ⟨some ⟨some ⟨1, 2⟩, none⟩,
      [⟨none, some "A"⟩, ⟨some ⟨5, -6⟩, some "B"⟩, ⟨some ⟨7, 8⟩, some "A"⟩],
      [⟨some ⟨9, 9⟩, none, some "X"⟩, ⟨some ⟨3, 4⟩, some 80, some "A"⟩]⟩⟩
    let point (x y : Int) := record [("y", .ofInt y), ("x", .ofInt x)]
    let j := record [("mappings", record [
      ("skill_casting", .array [record [("center", point 9 9), ("button", text "X")],
        record [("center", point 3 4), ("radius", .ofInt 80), ("button", text "A")]]),
      ("walk_control", record [("center", point 1 2), ("radius", .null)]),
      ("button_mappings", .array [record [("touch", .null), ("button", text "A")],
        record [("touch", point 5 (-6)), ("button", text "B")],
        record [("touch", point 7 8), ("button", text "A")]])])]
    let s := String.ofList j.write
    j.RepresentsDocument d ∧ j.Writes s.toList ∧ ∃ table, ofText s = .ok ⟨none, table⟩ ∧
      Tabulates [⟨⟨1⟩, ⟨5, -6⟩, .button, ⟨100⟩⟩, ⟨⟨0⟩, ⟨7, 8⟩, .button, ⟨101⟩⟩,
        ⟨⟨0⟩, ⟨3, 4⟩, .skill 80, ⟨102⟩⟩] table := by
  intro d point j s
  have hpoint : ∀ x y : Int32, (point x.toInt y.toInt).RepresentsPoint ⟨x, y⟩ :=
    fun x y ↦ ⟨_, _, ⟨_, rfl, .swap _ _ _⟩, rfl, rfl⟩
  have hwalk : OptionalPart RepresentsWalk (some _) (some ⟨some ⟨1, 2⟩, none⟩) :=
    .given ⟨some _, some _, ⟨_, rfl, .refl _⟩, .given (hpoint 1 2), .null⟩
  have hbuttons : ListPart RepresentsButton (some _) [⟨none, some "A"⟩,
      ⟨some ⟨5, -6⟩, some "B"⟩, ⟨some ⟨7, 8⟩, some "A"⟩] :=
    .given (.cons ⟨some _, some _, ⟨_, rfl, .refl _⟩, .null, .given rfl⟩
      (.cons ⟨some _, some _, ⟨_, rfl, .refl _⟩, .given (hpoint 5 (-6)), .given rfl⟩
      (.cons ⟨some _, some _, ⟨_, rfl, .refl _⟩, .given (hpoint 7 8), .given rfl⟩ .nil)))
  have hskills : ListPart RepresentsSkill (some _) [⟨some ⟨9, 9⟩, none, some "X"⟩,
      ⟨some ⟨3, 4⟩, some 80, some "A"⟩] :=
    .given (.cons ⟨some _, none, some _, ⟨_, rfl, .refl _⟩, .given (hpoint 9 9), .omitted,
      .given rfl⟩ (.cons ⟨some _, some _, some _, ⟨_, rfl, .refl _⟩, .given (hpoint 3 4),
      .given rfl, .given rfl⟩ .nil))
  have hj : j.RepresentsDocument d := by
    refine ⟨some _, ⟨_, rfl, .refl _⟩, .given ⟨some _, some _, some _, ⟨_, rfl, ?_⟩, hwalk,
      hbuttons, hskills⟩⟩
    exact @List.perm_append_comm _ [_] [_, _]
  have hs : j.Writes s.toList := by
    rw [String.toList_ofList]
    exact writes_write j
  exact ⟨hj, hs, (ofText_written hj hs).2 _ rfl⟩

end Touchmap

end InputRelay
