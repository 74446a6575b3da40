import InputRelay.Proofs.Config.Defaults
import InputRelay.Proofs.Toml.Section
import Mathlib.Data.List.Flatten

namespace InputRelay

open Toml Toml.Value

namespace Config

variable {c : Config} {kept : Key → Bool}

/-- What a document gives where it has just the kept ones of the settings of a configuration, each
under its key. What else it mentions is left open. -/
structure Gives (c : Config) (kept : Key → Bool) (s : Survey) : Prop where
  assigns : ∀ (k : Key) (setting : Setting), kept k = true → k.setting? c = some setting →
    s.Assigns k.path setting.value
  omits : ∀ k : Key, (kept k = true → k.setting? c = none) → s.Omits k.path
  hasSection : ∀ t : Table, s.HasSection t.path

theorem Key.path_ne_nil (k : Key) : k.path ≠ [] :=
  List.concat_ne_nil _ _

theorem Table.path_ne_nil (t : Table) : t.path ≠ [] := by
  cases t <;> exact List.cons_ne_nil _ _

theorem Gives.exists_keeps {statements : List Statement} (h : Gives c kept (survey statements))
    (hvalid : (survey statements).Valid) :
    ∃ doc, assemble statements = some doc ∧ Keeps c kept doc := by
  obtain ⟨doc, hdoc, hassigns, homits, hsection⟩ := exists_assemble hvalid
  refine ⟨doc, hdoc, fun t ↦ hsection _ t.path_ne_nil (h.hasSection t), fun k ↦ ?_⟩
  cases hkept : kept k with
  | false => exact homits _ k.path_ne_nil (h.omits k (by rw [hkept]; nofun))
  | true =>
    cases hsetting : k.setting? c with
    | none => exact homits _ k.path_ne_nil (h.omits k fun _ ↦ hsetting)
    | some setting => exact hassigns _ _ (h.assigns k setting hkept hsetting)

def Table.keys : Table → List Key
  | input => [.shortcutMods, .forwardAllClicks]
  | mouseBindings => [.right, .middle, .click4, .click5]
  | clipboard => [.autosync, .legacyPaste]
  | gamepad => [.forward, .touchmap]
  | log => [.level]

def Key.assignment? (c : Config) (k : Key) : Option (String × Setting) :=
  (k.setting? c).map (k.name, ·)

def keptSettings (c : Config) (kept : Key → Bool) (t : Table) : List (String × Setting) :=
  (t.keys.filter kept).filterMap (Key.assignment? c)

def keptSections (c : Config) (kept : Key → Bool) (present : Table → Bool) : List Section :=
  ([.input, .mouseBindings, .clipboard, .gamepad, .log].filter present).map fun t ↦
    ⟨t.path, c.keptSettings kept t⟩

theorem mem_keptSettings {t : Table} {name : String} {setting : Setting} :
    (name, setting) ∈ c.keptSettings kept t ↔
      ∃ k ∈ t.keys, kept k = true ∧ k.setting? c = some setting ∧ k.name = name := by
  simp only [keptSettings, List.mem_filterMap, List.mem_filter, Key.assignment?,
    Option.map_eq_some_iff, Prod.mk.injEq]
  constructor
  · rintro ⟨k, ⟨hk, hkept⟩, setting', hsetting, hname, rfl⟩
    exact ⟨k, hk, hkept, hsetting, hname⟩
  · rintro ⟨k, hk, hkept, hsetting, hname⟩
    exact ⟨k, ⟨hk, hkept⟩, setting, hsetting, hname, rfl⟩

theorem map_fst_keptSettings (c : Config) (kept : Key → Bool) (t : Table) :
    ((c.keptSettings kept t).map Prod.fst).Sublist (t.keys.map Key.name) := by
  rw [keptSettings]
  induction t.keys with
  | nil => exact .slnil
  | cons k ks ih =>
    cases hkept : kept k with
    | false => simpa [hkept] using ih.cons k.name
    | true =>
      cases hsetting : k.setting? c with
      | none => simpa [hkept, Key.assignment?, hsetting] using ih.cons k.name
      | some setting => simpa [hkept, Key.assignment?, hsetting] using ih

theorem proper_keptSections (present : Table → Bool) :
    ∀ s ∈ c.keptSections kept present, s.Proper := by
  intro s hs
  obtain ⟨t, -, rfl⟩ := List.mem_map.mp hs
  have hsub : ((c.keptSettings kept t).map Prod.fst).Sublist (t.keys.map Key.name) :=
    c.map_fst_keptSettings kept t
  have hall : ProperNames t.path (t.keys.map Key.name) := by cases t <;> decide
  exact ⟨hall.header_ne_nil, hall.length_header, hall.isBare_header,
    fun k hk ↦ hall.isBare_keys k (hsub.subset hk), hall.nodup_keys.sublist hsub⟩

def Table.shapes (t : Table) : List Mention :=
  .header (plain t.path) :: (t.keys.map Key.name).map fun name ↦ .value (plain t.path) [name] .float

theorem shapes_keptSections (present : Table → Bool) :
    (((c.keptSections kept present).flatMap Section.mentions).map Mention.shape).Sublist
      ([.input, .mouseBindings, .clipboard, .gamepad, .log].flatMap Table.shapes) := by
  have hsection : ∀ t : Table,
      ((Section.mentions ⟨t.path, c.keptSettings kept t⟩).map Mention.shape).Sublist t.shapes := by
    intro t
    have hnames := (c.map_fst_keptSettings kept t).map fun name ↦
      Mention.value (plain t.path) [name] .float
    rw [Section.mentions, List.map_cons, Table.shapes]
    refine .cons_cons _ ?_
    simpa [List.map_map, Function.comp_def, Mention.shape] using hnames
  rw [List.map_flatMap, keptSections, List.flatMap_map]
  exact ((List.filter_sublist).flatMap _).trans (List.Sublist.flatMap_right _ fun t _ ↦ hsection t)

theorem header_ne_nil_of_keptSections (present : Table → Bool) :
    ∀ o ∈ c.keptSections kept present, o.header ≠ [] :=
  fun o ho ↦ (c.proper_keptSections present o ho).header_ne_nil

set_option maxRecDepth 4000 in
theorem valid_keptSections (present : Table → Bool) :
    (survey ((c.keptSections kept present).flatMap Section.statements)).Valid := by
  have hshapes : ([.input, .mouseBindings, .clipboard, .gamepad, .log].flatMap
      Table.shapes).Pairwise Mention.Agrees := by
    decide
  exact valid_sections (header_ne_nil_of_keptSections present)
    (hshapes.sublist (shapes_keptSections present))

theorem mem_table_keys {t : Table} {k : Key} : k ∈ t.keys ↔ k.table = t := by
  cases t <;> cases k <;> decide

theorem mem_mentions_keptSections {present : Table → Bool} {m : Mention}
    (h : m ∈ (c.keptSections kept present).flatMap Section.mentions) :
    (∃ t : Table, m = .header (plain t.path)) ∨
      ∃ (k : Key) (setting : Setting), kept k = true ∧ k.setting? c = some setting ∧
        m = .value (plain k.table.path) [k.name] setting.value := by
  obtain ⟨o, ho, hm⟩ := List.mem_flatMap.mp h
  obtain ⟨t, -, rfl⟩ := List.mem_map.mp ho
  rcases List.mem_cons.mp hm with rfl | hm
  · exact .inl ⟨t, rfl⟩
  · obtain ⟨⟨name, setting⟩, hmem, rfl⟩ := List.mem_map.mp hm
    obtain ⟨k, hk, hkept, hsetting, rfl⟩ := mem_keptSettings.mp hmem
    obtain rfl := mem_table_keys.mp hk
    exact .inr ⟨k, setting, hkept, hsetting, rfl⟩

theorem value_mem_mentions_keptSections {present : Table → Bool} {k : Key} {setting : Setting}
    (hpresent : present k.table = true) (hkept : kept k = true)
    (hsetting : k.setting? c = some setting) :
    .value (plain k.table.path) [k.name] setting.value ∈
      (c.keptSections kept present).flatMap Section.mentions := by
  have htable : k.table ∈ [Table.input, .mouseBindings, .clipboard, .gamepad, .log] := by
    cases k <;> decide
  refine List.mem_flatMap.mpr ⟨_, List.mem_map_of_mem (List.mem_filter.mpr ⟨htable, hpresent⟩), ?_⟩
  have hmem : (k.name, setting) ∈ c.keptSettings kept k.table :=
    mem_keptSettings.mpr ⟨k, mem_table_keys.mpr rfl, hkept, hsetting, rfl⟩
  exact List.mem_cons_of_mem _ (List.mem_map_of_mem hmem)

theorem Key.eq_of_path_le {k k' : Key} (h : k.path <+: k'.path) : k = k' := by
  cases k <;> cases k' <;> first | rfl | exact absurd h (by decide)

theorem Key.not_path_le (k : Key) (t : Table) : ¬k.path <+: t.path := by
  cases k <;> cases t <;> decide

theorem Key.plain_path (k : Key) : plain k.table.path ++ plain [k.name] = plain k.path :=
  List.map_append.symm

theorem place_cases {present : Table → Bool} {m : Mention}
    (hm : m ∈ (survey ((c.keptSections kept present).flatMap Section.statements)).mentions) :
    (∃ t : Table, m.isValue = false ∧ m.place.map Prod.fst = t.path) ∨
      ∃ k : Key, kept k = true ∧ (k.setting? c).isSome = true ∧
        m.place.map Prod.fst = k.path := by
  rw [(survey_sections (c.header_ne_nil_of_keptSections present)).2] at hm
  obtain ⟨t, rfl⟩ | ⟨k, setting, hkept, hsetting, rfl⟩ := mem_mentions_keptSections hm
  · exact .inl ⟨t, rfl, map_fst_plain _⟩
  · refine .inr ⟨k, hkept, by rw [hsetting]; rfl, ?_⟩
    rw [Mention.place, k.plain_path, map_fst_plain]

theorem gives_keptSections {present : Table → Bool}
    (hpresent : ∀ k : Key, kept k = true → (k.setting? c).isSome = true →
      present k.table = true) :
    Gives c kept (survey ((c.keptSections kept present).flatMap Section.statements)) := by
  obtain ⟨hitems, hmentions⟩ := survey_sections (c.header_ne_nil_of_keptSections present)
  constructor
  · intro k setting hkept hsetting
    have hthere := hpresent k hkept (by rw [hsetting]; rfl)
    refine ⟨k.path, [], _, _, _, k.path_ne_nil, ?_, k.plain_path, (List.append_nil _).symm, rfl⟩
    rw [hmentions]
    exact value_mem_mentions_keptSections hthere hkept hsetting
  · intro k hmissing
    have hother : ∀ k', kept k' = true → (k'.setting? c).isSome = true → k ≠ k' := by
      rintro _ hkept hsome rfl
      rw [hmissing hkept] at hsome
      cases hsome
    refine Survey.omits_of_apart (fun m hm hle ↦ ?_) fun m hm hvalue hle ↦ ?_
    · obtain ⟨t, -, hpath⟩ | ⟨k', hkept, hsome, hpath⟩ := place_cases hm
      · exact k.not_path_le t (hpath ▸ hle)
      · exact hother k' hkept hsome (Key.eq_of_path_le (hpath ▸ hle))
    · obtain ⟨t, hheader, -⟩ | ⟨k', hkept, hsome, hpath⟩ := place_cases hm
      · exact Bool.false_ne_true (hheader.symm.trans hvalue)
      · exact hother k' hkept hsome (Key.eq_of_path_le (hpath ▸ hle)).symm
  · intro t
    refine Survey.hasSection_of_apart hitems fun m hm hvalue hle ↦ ?_
    obtain ⟨t', hheader, -⟩ | ⟨k, -, -, hpath⟩ := place_cases hm
    · exact Bool.false_ne_true (hheader.symm.trans hvalue)
    · exact k.not_path_le t (hpath ▸ hle)

theorem exists_entries_of_read {cs : List Char} {doc : Value} (h : Toml.read cs = some doc) :
    ∃ entries, doc = .table entries := by
  obtain ⟨statements, -, h⟩ := Option.bind_eq_some_iff.mp h
  obtain ⟨o, -, rfl⟩ := Option.map_eq_some_iff.mp h
  exact ⟨_, rfl⟩

section Load

variable {disk : Disk} {path text : String}

theorem Keeps.load {doc : Value} (h : Keeps c kept doc) (hdisk : disk.read path = .ok text)
    (hread : Toml.read text.toList = some doc) : load disk path = .ok (c.only kept) := by
  obtain ⟨entries, rfl⟩ := exists_entries_of_read hread
  rw [Config.load, hdisk]
  dsimp only
  rw [ofText, hread, Option.bind_some, h.ofToml?]

theorem Gives.load {statements : List Statement} (h : Gives c kept (survey statements))
    (hdisk : disk.read path = .ok text) (htext : HasText statements text.toList)
    (hvalid : (survey statements).Valid) : load disk path = .ok (c.only kept) := by
  obtain ⟨doc, hdoc, hkeeps⟩ := h.exists_keeps hvalid
  exact hkeeps.load hdisk (htext.read.trans hdoc)

theorem load_keptSections {present : Table → Bool}
    (hpresent : ∀ k : Key, kept k = true → (k.setting? c).isSome = true →
      present k.table = true)
    (hdisk : disk.read path = .ok (String.ofList (writeSections (c.keptSections kept present)))) :
    Config.load disk path = .ok (c.only kept) := by
  refine (gives_keptSections hpresent).load hdisk ?_ (valid_keptSections present)
  rw [String.toList_ofList]
  exact hasText_writeSections (proper_keptSections present)

end Load

end Config

end InputRelay
