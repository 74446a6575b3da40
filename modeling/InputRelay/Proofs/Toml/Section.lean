import InputRelay.Proofs.Toml.Document
import InputRelay.Proofs.Toml.Survey
import InputRelay.Toml.Writer

namespace InputRelay.Toml

def IsBare (k : String) : Prop :=
  k.toList ≠ [] ∧ ∀ c ∈ k.toList, isBareKeyChar c = true

instance : DecidablePred IsBare := fun k ↦
  letI : Decidable (∀ c ∈ k.toList, isBareKeyChar c = true) := k.toList.decidableBAll _
  inferInstanceAs (Decidable (_ ∧ _))

/-- A header and keys that can stand without quotes, with each key just once. -/
@[mk_iff]
structure ProperNames (header keys : List String) : Prop where
  header_ne_nil : header ≠ []
  length_header : header.length ≤ depthLimit
  isBare_header : ∀ k ∈ header, IsBare k
  isBare_keys : ∀ k ∈ keys, IsBare k
  nodup_keys : keys.Nodup

instance (header keys : List String) : Decidable (ProperNames header keys) :=
  decidable_of_iff' _ (properNames_iff header keys)

namespace Section

def Proper (s : Section) : Prop :=
  ProperNames s.header (s.settings.map Prod.fst)

def statements (s : Section) : List Statement :=
  .table s.header.dropLast (s.header.getLast?.getD "") ::
    s.settings.map fun (k, setting) ↦ .assign [] k setting.value

def mentions (s : Section) : List Mention :=
  .header (plain s.header) ::
    s.settings.map fun (k, setting) ↦ .value (plain s.header) [k] setting.value

end Section

theorem spaces_nil : Spaces [] :=
  List.forall_mem_nil _

theorem IsBare.hasPartText {k : String} (h : IsBare k) : HasPartText k k.toList :=
  .bare h.1 h.2

theorem hasKeyText_intercalate {ks : List String} (hne : ks ≠ []) (hks : ∀ k ∈ ks, IsBare k) :
    HasKeyText ks (".".intercalate ks).toList := by
  have hdot : ".".toList = ['.'] := rfl
  rw [String.toList_intercalate, hdot]
  induction ks with
  | nil => exact absurd rfl hne
  | cons k ks ih =>
    obtain ⟨hk, hks⟩ := List.forall_mem_cons.mp hks
    cases ks with
    | nil => simpa using HasKeyText.last hk.hasPartText spaces_nil
    | cons next ks =>
      have hrest := ih (List.cons_ne_nil _ _) hks
      rw [List.map_cons, List.map_cons, List.intercalate_cons_cons, ← List.map_cons,
        List.append_assoc]
      exact .cons hk.hasPartText spaces_nil spaces_nil hrest

theorem hasValueText_string (depth : ℕ) (text : String) :
    HasValueText depth (.string text) (writeString text) := by
  have hscalar : HasScalarText (.string text) (writeString text) :=
    .string (hasStringText_writeString text)
  cases depth with
  | zero => exact hscalar
  | succ depth => exact .inl hscalar

theorem hasItemsText_lines (depth : ℕ) (items : List String) :
    HasItemsText (HasValueText depth) (items.map .string)
      ('\n' :: items.flatMap fun s ↦ "    ".toList ++ writeString s ++ [',', '\n']) := by
  have hvoid : Void ['\n'] := .lineBreak (b := ['\n']) (by decide) .nil
  have hindent : Void ('\n' :: "    ".toList) :=
    .lineBreak (b := ['\n']) (by decide) (.space rfl (.space rfl (.space rfl (.space rfl .nil))))
  induction items with
  | nil => exact .nil hvoid
  | cons text items ih =>
    have hitem := HasItemsText.cons hindent (hasValueText_string depth text) .nil ih
    simpa using hitem

theorem Setting.hasValueText (depth : ℕ) (setting : Setting) :
    HasValueText (depth + 1) setting.value setting.write := by
  cases setting with
  | flag b => cases b <;> exact .inl (.boolean (by decide))
  | text s => exact hasValueText_string _ s
  | texts items =>
    refine .inr ?_
    match items with
    | [] => exact .array (.nil .nil)
    | [s] =>
      have harray := HasContainerText.array (.last .nil (hasValueText_string depth s) .nil)
      simpa [Setting.write, Setting.value] using harray
    | s :: s' :: items => exact .array (hasItemsText_lines depth (s :: s' :: items))

section Lines

variable {ss : List Statement} {rest : List Char}

theorem HasLinesText.statement {s : Statement} {cs : List Char} (h : HasStatementText s cs)
    (hrest : HasLinesText ss rest) : HasLinesText (s :: ss) (cs ++ '\n' :: rest) := by
  have hline := HasLinesText.cons (.statement spaces_nil h (.spaces spaces_nil))
    (b := ['\n']) (by decide) hrest
  simpa using hline

theorem HasLinesText.setting {k : String} (hk : IsBare k) (setting : Setting)
    (hrest : HasLinesText ss rest) :
    HasLinesText (.assign [] k setting.value :: ss)
      (k.toList ++ " = ".toList ++ setting.write ++ '\n' :: rest) := by
  have hspace : Spaces [' '] := List.forall_mem_singleton.mpr rfl
  have hassign : HasAssignmentText (HasValueText depthLimit) (.assign [] k setting.value) _ :=
    .mk (.last hk.hasPartText hspace) (by decide) hspace (setting.hasValueText 78)
  simpa using hrest.statement (.assign hassign)

theorem HasLinesText.settings {settings : List (String × Setting)}
    (hkeys : ∀ k ∈ settings.map Prod.fst, IsBare k) (hrest : HasLinesText ss rest) :
    HasLinesText (settings.map (fun (k, setting) ↦ .assign [] k setting.value) ++ ss)
      ((settings.flatMap fun (k, setting) ↦
        k.toList ++ " = ".toList ++ setting.write ++ ['\n']) ++ rest) := by
  induction settings with
  | nil => exact hrest
  | cons p settings ih =>
    obtain ⟨k, setting⟩ := p
    obtain ⟨hk, hkeys⟩ := List.forall_mem_cons.mp hkeys
    rw [List.flatMap_cons, List.append_assoc, List.append_assoc, List.singleton_append]
    exact (ih hkeys).setting hk setting

theorem HasLinesText.section {o : Section} (ho : o.Proper) (hrest : HasLinesText ss rest) :
    HasLinesText (o.statements ++ ss) (o.write ++ rest) := by
  have hheader : o.header.getLast?.getD "" = o.header.getLast ho.header_ne_nil := by
    rw [List.getLast?_eq_some_getLast ho.header_ne_nil, Option.getD_some]
  have hpath := List.dropLast_append_getLast ho.header_ne_nil
  have hlength : o.header.dropLast.length < depthLimit := by
    have hpos := List.length_pos_iff.mpr ho.header_ne_nil
    have hle := ho.length_header
    rw [List.length_dropLast]
    omega
  have hkey : HasKeyText (o.header.dropLast ++ [o.header.getLast ho.header_ne_nil])
      (".".intercalate o.header).toList := by
    rw [hpath]
    exact hasKeyText_intercalate ho.header_ne_nil ho.isBare_header
  have hstatement : HasStatementText (.table o.header.dropLast (o.header.getLast ho.header_ne_nil))
      ('[' :: ([] ++ ((".".intercalate o.header).toList ++ [']']))) :=
    .table spaces_nil hkey hlength
  have hlines := (hrest.settings ho.isBare_keys).statement hstatement
  rw [Section.write, Section.statements, hheader]
  simpa using hlines

/-- The lines of sections are a text of what these say. -/
theorem hasText_writeSections {sections : List Section} (h : ∀ s ∈ sections, s.Proper) :
    HasText (sections.flatMap Section.statements) (writeSections sections) := by
  have hblank : HasLinesText [] [] := .last (.blank (.spaces spaces_nil))
  refine .plain ?_
  induction sections with
  | nil => exact hblank
  | cons o sections ih =>
    obtain ⟨ho, hrest⟩ := List.forall_mem_cons.mp h
    cases sections with
    | nil => simpa [writeSections] using hblank.section ho
    | cons next sections =>
      have hgap := HasLinesText.cons (.blank (.spaces spaces_nil)) (b := ['\n']) (by decide)
        (ih hrest)
      simpa [writeSections] using hgap.section ho

end Lines

section Surveys

variable {s : Survey}

theorem foldl_add_settings (hs : s.items = []) (settings : List (String × Setting)) :
    (settings.map fun (k, setting) ↦ Statement.assign [] k setting.value).foldl Survey.add s =
      { s with mentions := s.mentions ++
        settings.map fun (k, setting) ↦ .value (plain s.current) [k] setting.value } := by
  induction settings generalizing s with
  | nil => simp
  | cons p settings ih =>
    obtain ⟨k, setting⟩ := p
    have hadd : s.add (.assign [] k setting.value) =
        { s with mentions := s.mentions ++ [.value (plain s.current) [k] setting.value] } := by
      rw [Survey.add, Survey.locate_of_nil hs]
      rfl
    rw [List.map_cons, List.foldl_cons, hadd]
    refine (ih ?_).trans ?_
    · exact hs
    · simp

theorem foldl_add_section (hs : s.items = []) {o : Section} (ho : o.header ≠ []) :
    o.statements.foldl Survey.add s =
      { items := [], current := o.header, mentions := s.mentions ++ o.mentions } := by
  have hheader : o.header.dropLast ++ [o.header.getLast?.getD ""] = o.header := by
    rw [List.getLast?_eq_some_getLast ho, Option.getD_some, List.dropLast_append_getLast]
  rw [Section.statements, List.foldl_cons, Survey.add, hheader, Survey.enter,
    Survey.locate_of_nil hs]
  refine (foldl_add_settings ?_ _).trans ?_
  · exact hs
  · simp [Survey.mention, Section.mentions, hs]

theorem survey_sections {sections : List Section} (h : ∀ o ∈ sections, o.header ≠ []) :
    (survey (sections.flatMap Section.statements)).items = [] ∧
      (survey (sections.flatMap Section.statements)).mentions =
        sections.flatMap Section.mentions := by
  have hfold : ∀ s : Survey, s.items = [] →
      ((sections.flatMap Section.statements).foldl Survey.add s).items = [] ∧
        ((sections.flatMap Section.statements).foldl Survey.add s).mentions =
          s.mentions ++ sections.flatMap Section.mentions := by
    induction sections with
    | nil => exact fun s hs ↦ ⟨hs, by simp⟩
    | cons o sections ih =>
      intro s hs
      obtain ⟨ho, hrest⟩ := List.forall_mem_cons.mp h
      rw [List.flatMap_cons, List.foldl_append, foldl_add_section hs ho, List.flatMap_cons,
        ← List.append_assoc]
      exact ih hrest _ rfl
  exact hfold {} rfl

theorem valid_sections {sections : List Section} (h : ∀ o ∈ sections, o.header ≠ [])
    (hagrees : ((sections.flatMap Section.mentions).map Mention.shape).Pairwise Mention.Agrees) :
    (survey (sections.flatMap Section.statements)).Valid := by
  obtain ⟨hitems, hmentions⟩ := survey_sections h
  refine ⟨?_, by simp [hitems]⟩
  rw [hmentions]
  exact (List.pairwise_map.mp hagrees).imp fun h ↦ (Mention.agrees_shape _ _).mp h

end Surveys

end InputRelay.Toml
