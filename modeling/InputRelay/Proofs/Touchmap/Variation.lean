import InputRelay.Proofs.Touchmap.Document

namespace InputRelay

open Form Json

def Json.IsContainer : Json → Prop
  | array _ | object _ => True
  | _ => False

namespace TouchmapDocument

/-- Where a part of a document stands. Other values are taken as a whole or ignored. -/
inductive Place
  | document | mappings | walk | buttons | button | skills | skill | point | other
deriving DecidableEq

namespace Place

def fields : Place → List (String × Place)
  | document => [("mappings", mappings)]
  | mappings => [("walk_control", walk), ("button_mappings", buttons), ("skill_casting", skills)]
  | walk => [("center", point), ("radius", other)]
  | button => [("touch", point), ("button", other)]
  | skill => [("center", point), ("radius", other), ("button", other)]
  | point => [("x", other), ("y", other)]
  | buttons | skills | other => []

def names (p : Place) : List String :=
  p.fields.map Prod.fst

def member (p : Place) : Literal → Place
  | .text name => (p.fields.lookup name).getD other
  | .unpaired => other

/-- The place of an item. A list that stands for an object has its members in order. -/
def item : Place → ℕ → Place
  | buttons, _ => button
  | skills, _ => skill
  | p, i => (p.fields[i]?.map Prod.snd).getD other

theorem member_of_mem {p : Place} {f : String × Place} (h : f ∈ p.fields) :
    p.member (.text f.1) = f.2 := by
  have hall : ∀ f ∈ p.fields, p.member (.text f.1) = f.2 := by
    cases p <;> decide
  exact hall f h

theorem item_of_getElem? {p : Place} {i : ℕ} {f : String × Place} (h : p.fields[i]? = some f) :
    p.item i = f.2 := by
  cases p
  case buttons | skills | other => cases h
  all_goals
    rw [item, h]
    · rfl
    all_goals nofun

end Place

/-- What a value at a place may be changed into: the members of any object are put in another order,
or an object gets a member that it does not know, here or further inside. What is ignored knows no
member, so anything may be added there. -/
inductive Varied : Place → Json → Json → Prop
  | refl (p : Place) (j : Json) : Varied p j j
  | trans {p : Place} {j j' j'' : Json} (h : Varied p j j') (h' : Varied p j' j'') : Varied p j j''
  | permute {p : Place} {ms ms' : List (Literal × Json)} (h : ms.Perm ms') :
      Varied p (.object ms) (.object ms')
  | extend {p : Place} {name : String} (hname : name ∉ p.names) (v : Json)
      (ms : List (Literal × Json)) : Varied p (.object ms) (.object ((.text name, v) :: ms))
  | member {p : Place} {k : Literal} {v v' : Json} (h : Varied (p.member k) v v')
      (ms : List (Literal × Json)) : Varied p (.object ((k, v) :: ms)) (.object ((k, v') :: ms))
  | item {p : Place} {items : List Json} {i : ℕ} {v v' : Json} (hi : items[i]? = some v)
      (h : Varied (p.item i) v v') : Varied p (.array items) (.array (items.set i v'))

inductive VariedParts : List Place → List (Option Json) → List (Option Json) → Prop
  | nil : VariedParts [] [] []
  | cons {p : Place} {ps : List Place} {v v' : Option Json} {vs vs' : List (Option Json)}
      (hv : Option.Rel (Varied p) v v') (h : VariedParts ps vs vs') :
      VariedParts (p :: ps) (v :: vs) (v' :: vs')

theorem optionRel_refl {α : Type} {r : α → α → Prop} (hr : ∀ a, r a a) : ∀ o, Option.Rel r o o
  | none => .none
  | some a => .some (hr a)

theorem optionRel_trans {α : Type} {r : α → α → Prop} (hr : ∀ {a b c}, r a b → r b c → r a c)
    {o o' o'' : Option α} (h : Option.Rel r o o') (h' : Option.Rel r o' o'') :
    Option.Rel r o o'' := by
  cases h with
  | none => exact h'
  | some h =>
    cases h' with
    | some h' => exact .some (hr h h')

namespace Varied

variable {p : Place} {j j' : Json}

theorem object {ms : List (Literal × Json)} (h : Varied p (.object ms) j') :
    ∃ ms', j' = .object ms' ∧ ms'.any (·.1 == .unpaired) = ms.any (·.1 == .unpaired) ∧
      ∀ name ∈ p.names, Option.Rel (Option.Rel (Varied (p.member (.text name))))
        (under? ms name) (under? ms' name) := by
  have hrefl : ∀ (p : Place) (found : Option (Option Json)),
      Option.Rel (Option.Rel (Varied p)) found found :=
    fun p ↦ optionRel_refl (optionRel_refl (.refl p))
  generalize hj : Json.object ms = j at h
  induction h generalizing ms with
  | refl p j =>
    subst hj
    exact ⟨ms, rfl, rfl, fun name _ ↦ hrefl _ _⟩
  | trans h h' ih ih' =>
    obtain ⟨ms₁, rfl, htext, hms⟩ := ih hj
    obtain ⟨ms₂, rfl, htext', hms'⟩ := ih' rfl
    refine ⟨ms₂, rfl, htext'.trans htext, fun name hname ↦ ?_⟩
    exact optionRel_trans (optionRel_trans .trans) (hms name hname) (hms' name hname)
  | permute hperm =>
    cases hj
    refine ⟨_, rfl, hperm.symm.any_eq, fun name _ ↦ ?_⟩
    rw [under?_perm hperm]
    exact hrefl _ _
  | extend hname v ms =>
    cases hj
    refine ⟨_, rfl, rfl, fun name hknown ↦ ?_⟩
    rw [under?_cons_of_ne]
    · exact hrefl _ _
    · rintro ⟨⟩
      exact hname hknown
  | @member p k v v' h ms ih =>
    cases hj
    refine ⟨_, rfl, rfl, fun name _ ↦ ?_⟩
    by_cases hk : k = .text name
    · subst hk
      rcases under?_cons_self name ms with hone | hnone
      · rw [hone, hone]
        exact .some (.some h)
      · rw [hnone, hnone]
        exact .none
    · rw [under?_cons_of_ne hk, under?_cons_of_ne hk]
      exact hrefl _ _
  | item => cases hj

theorem array {items : List Json} (h : Varied p (.array items) j') :
    ∃ items', j' = .array items' ∧ items'.length = items.length ∧
      ∀ i : ℕ, Option.Rel (Varied (p.item i)) items[i]? items'[i]? := by
  generalize hj : Json.array items = j at h
  induction h generalizing items with
  | refl p j =>
    subst hj
    exact ⟨items, rfl, rfl, fun i ↦ optionRel_refl (.refl _) _⟩
  | trans h h' ih ih' =>
    obtain ⟨items₁, rfl, hlength, hitems⟩ := ih hj
    obtain ⟨items₂, rfl, hlength', hitems'⟩ := ih' rfl
    refine ⟨items₂, rfl, hlength'.trans hlength, fun i ↦ ?_⟩
    exact optionRel_trans .trans (hitems i) (hitems' i)
  | @item p items i v v' hi h ih =>
    cases hj
    refine ⟨_, rfl, List.length_set, fun n ↦ ?_⟩
    by_cases hn : i = n
    · subst hn
      obtain ⟨hlt, -⟩ := List.getElem?_eq_some_iff.mp hi
      rw [hi, List.getElem?_set_self hlt]
      exact .some h
    · rw [List.getElem?_set_ne hn]
      exact optionRel_refl (.refl _) _
  | permute | extend | member => cases hj

theorem eq_or_containers (h : Varied p j j') : j' = j ∨ j.IsContainer ∧ j'.IsContainer := by
  induction h with
  | refl => exact .inl rfl
  | trans h h' ih ih' =>
    rcases ih with rfl | ⟨hj, hj'⟩
    · exact ih'
    · rcases ih' with rfl | ⟨-, hj''⟩
      · exact .inr ⟨hj, hj'⟩
      · exact .inr ⟨hj, hj''⟩
  | permute | extend | member | item => exact .inr ⟨trivial, trivial⟩

end Varied

theorem variedParts_mapM {fields : List (String × Place)} {ms ms' : List (Literal × Json)}
    (h : ∀ f ∈ fields, Option.Rel (Option.Rel (Varied f.2)) (under? ms f.1) (under? ms' f.1)) :
    Option.Rel (VariedParts (fields.map Prod.snd))
      ((fields.map Prod.fst).mapM (under? ms)) ((fields.map Prod.fst).mapM (under? ms')) := by
  induction fields with
  | nil => exact .some .nil
  | cons f fields ih =>
    have hf := h f List.mem_cons_self
    have ih := ih fun g hg ↦ h g (List.mem_cons_of_mem f hg)
    simp only [List.map_cons, List.mapM_cons]
    generalize under? ms f.1 = v, under? ms' f.1 = v' at hf
    generalize (fields.map Prod.fst).mapM (under? ms) = vs,
      (fields.map Prod.fst).mapM (under? ms') = vs' at ih
    cases hf with
    | none => exact .none
    | some hv =>
      cases ih with
      | none => exact .none
      | some hvs => exact .some (.cons hv hvs)

theorem variedParts_items {ps : List Place} {items items' : List Json}
    (hle : items.length ≤ ps.length) (hlength : items'.length = items.length)
    (h : ∀ (i : ℕ) (p : Place), ps[i]? = some p → Option.Rel (Varied p) items[i]? items'[i]?) :
    VariedParts ps (items.map some ++ List.replicate (ps.length - items.length) none)
      (items'.map some ++ List.replicate (ps.length - items.length) none) := by
  induction ps generalizing items items' with
  | nil =>
    obtain rfl := List.length_eq_zero_iff.mp (Nat.le_zero.mp hle)
    obtain rfl := List.length_eq_zero_iff.mp hlength
    exact .nil
  | cons p ps ih =>
    cases items with
    | nil =>
      obtain rfl := List.length_eq_zero_iff.mp hlength
      have hrest := @ih [] [] (Nat.zero_le _) rfl fun _ _ _ ↦ .none
      exact .cons .none hrest
    | cons v items =>
      obtain ⟨v', items', rfl⟩ := List.exists_cons_of_length_eq_add_one hlength
      have hrest := ih (Nat.le_of_succ_le_succ hle) (Nat.succ.inj hlength) fun i ↦ h (i + 1)
      rw [List.length_cons, List.length_cons, Nat.add_sub_add_right]
      exact .cons (h 0 p rfl) hrest

theorem Varied.members? {p : Place} {j j' : Json} (h : Varied p j j') (needed : ℕ) :
    Option.Rel (VariedParts (p.fields.map Prod.snd)) (j.members? p.names needed)
      (j'.members? p.names needed) := by
  cases j with
  | object ms =>
    obtain ⟨ms', rfl, htext, hunder⟩ := h.object
    cases hany : ms.any (·.1 == .unpaired) with
    | true =>
      rw [members?_object_unpaired hany, members?_object_unpaired (htext.trans hany)]
      exact .none
    | false =>
      rw [members?_object hany, members?_object (htext.trans hany)]
      refine variedParts_mapM fun f hf ↦ ?_
      have hf' := hunder f.1 (List.mem_map_of_mem hf)
      rwa [Place.member_of_mem hf] at hf'
  | array items =>
    obtain ⟨items', rfl, hlength, hitems⟩ := h.array
    have hnames : p.names.length = (p.fields.map Prod.snd).length := by
      rw [Place.names, List.length_map, List.length_map]
    simp only [Json.members?, hlength, hnames]
    split
    · rename_i hle
      refine .some (variedParts_items hle.2 hlength fun i q hq ↦ ?_)
      rw [List.getElem?_map] at hq
      obtain ⟨f, hf, rfl⟩ := Option.map_eq_some_iff.mp hq
      have hi := hitems i
      rwa [Place.item_of_getElem? hf] at hi
    · exact .none
  | null | bool | number | string =>
    rcases h.eq_or_containers with rfl | ⟨hj, -⟩
    · exact .none
    · cases hj

/-- The same is read from whatever a value at a place is changed into. -/
def Stable {α : Type} (p : Place) (read : Json → Option α) : Prop :=
  ∀ ⦃j j' : Json⦄, Varied p j j' → read j' = read j

namespace Stable

variable {α : Type} {p q : Place}

theorem of_leaf {read : Json → Option α} (hread : ∀ j : Json, j.IsContainer → read j = none) :
    Stable p read := by
  intro j j' h
  rcases h.eq_or_containers with rfl | ⟨hj, hj'⟩
  · rfl
  · rw [hread j hj, hread j' hj']

theorem optional [Form α] (h : Stable p (ofJson? : Json → Option α)) {v v' : Option Json}
    (hv : Option.Rel (Varied p) v v') :
    (optional? v' : Option (Option α)) = optional? v := by
  cases hv with
  | none => rfl
  | @some j j' hj =>
    rcases hj.eq_or_containers with rfl | ⟨hc, hc'⟩
    · rfl
    · have hne : ∀ {j : Json}, j.IsContainer → j ≠ .null := by
        rintro _ hnull rfl
        exact hnull
      rw [optional?.eq_3 _ (hne hc'), optional?.eq_3 _ (hne hc), h hj]

theorem list {item? : Json → Option α} (h : Stable q item?) (hitem : ∀ i, p.item i = q)
    {v v' : Option Json} (hv : Option.Rel (Varied p) v v') : list? item? v' = list? item? v := by
  cases hv with
  | none => rfl
  | @some j j' hj =>
    cases j with
    | array items =>
      obtain ⟨items', rfl, -, hitems⟩ := hj.array
      have hmap : items'.map item? = items.map item? := by
        apply List.ext_getElem?
        intro i
        have hi := hitems i
        rw [hitem] at hi
        rw [List.getElem?_map, List.getElem?_map]
        generalize items[i]? = v, items'[i]? = v' at hi
        cases hi with
        | none => rfl
        | some hvw => rw [Option.map_some, Option.map_some, h hvw]
      have hid : ∀ items : List Json, items.mapM item? = (items.map item?).mapM id := by
        intro items
        rw [List.mapM_map]
        rfl
      show items'.mapM item? = items.mapM item?
      rw [hid, hid, hmap]
    | object ms =>
      obtain ⟨ms', rfl, -⟩ := hj.object
      rfl
    | null | bool | number | string =>
      rcases hj.eq_or_containers with rfl | ⟨hc, -⟩
      · rfl
      · cases hc

theorem record {read : Json → Option α} {f : List (Option Json) → Option α} (needed : ℕ)
    (hread : ∀ j, read j = (j.members? p.names needed).bind f)
    (hf : ∀ {vs vs'}, VariedParts (p.fields.map Prod.snd) vs vs' → f vs' = f vs) :
    Stable p read := by
  intro j j' h
  have hmembers := h.members? needed
  rw [hread, hread]
  generalize j.members? p.names needed = vs, j'.members? p.names needed = vs' at hmembers
  cases hmembers with
  | none => rfl
  | some hparts => exact hf hparts

end Stable

theorem stable_int : Stable .other (ofJson? : Json → Option Int32) :=
  .of_leaf fun j hj ↦ by cases j <;> first | rfl | cases hj

theorem stable_text : Stable .other (ofJson? : Json → Option String) :=
  .of_leaf fun j hj ↦ by cases j <;> first | rfl | cases hj

theorem stable_point : Stable .point (ofJson? : Json → Option Point) := by
  refine .record 2 (fun j ↦ Option.bind_assoc (j.members? ["x", "y"] 2) _ _) fun h ↦ ?_
  obtain _ | ⟨hx, _ | ⟨hy, _ | _⟩⟩ := h
  cases hx with
  | none => rfl
  | some hx =>
    cases hy with
    | none => rfl
    | some hy =>
      show Option.bind (ofJson? _) _ = Option.bind (ofJson? _) _
      rw [stable_int hx, stable_int hy]

theorem stable_walk : Stable .walk (ofJson? : Json → Option WalkEntry) := by
  refine .record 2 (fun _ ↦ rfl) fun h ↦ ?_
  obtain _ | ⟨hcenter, _ | ⟨hradius, _ | _⟩⟩ := h
  show Option.bind _ _ = Option.bind _ _
  rw [stable_point.optional hcenter, stable_int.optional hradius]

theorem stable_button : Stable .button (ofJson? : Json → Option ButtonEntry) := by
  refine .record 2 (fun _ ↦ rfl) fun h ↦ ?_
  obtain _ | ⟨htouch, _ | ⟨hname, _ | _⟩⟩ := h
  show Option.bind _ _ = Option.bind _ _
  rw [stable_point.optional htouch, stable_text.optional hname]

theorem stable_skill : Stable .skill (ofJson? : Json → Option SkillEntry) := by
  refine .record 3 (fun _ ↦ rfl) fun h ↦ ?_
  obtain _ | ⟨hcenter, _ | ⟨hradius, _ | ⟨hname, _ | _⟩⟩⟩ := h
  show Option.bind _ _ = Option.bind _ _
  rw [stable_point.optional hcenter, stable_int.optional hradius, stable_text.optional hname]

theorem stable_mappings : Stable .mappings (ofJson? : Json → Option Mappings) := by
  refine .record 1 (fun _ ↦ rfl) fun h ↦ ?_
  obtain _ | ⟨hwalk, _ | ⟨hbuttons, _ | ⟨hskills, _ | _⟩⟩⟩ := h
  show Option.bind _ _ = Option.bind _ _
  rw [stable_walk.optional hwalk, stable_button.list (fun _ ↦ rfl) hbuttons,
    stable_skill.list (fun _ ↦ rfl) hskills]

theorem stable_document : Stable .document (ofJson? : Json → Option TouchmapDocument) := by
  refine .record 1 (fun _ ↦ rfl) fun h ↦ ?_
  obtain _ | ⟨hmappings, _ | _⟩ := h
  show Option.bind _ _ = Option.bind _ _
  rw [stable_mappings.optional hmappings]

end TouchmapDocument

theorem read?_of_hasText {α : Type} [Form α] {j : Json} {s : String} (h : j.HasText s.toList) :
    (Form.read? s : Option α) = ofJson? j := by
  rw [Form.read?, read_of_hasText h, Option.bind_some]

namespace Touchmap

open TouchmapDocument

/-- The members of a document may be put in another order, and members that it does not know may be
added: whatever text it has, the same is read. -/
theorem ofText_varied {j j' : Json} (h : Varied .document j j') {s s' : String}
    (hs : j.HasText s.toList) (hs' : j'.HasText s'.toList) : ofText s' = ofText s := by
  have hread : (Form.read? s' : Option TouchmapDocument) = Form.read? s := by
    rw [read?_of_hasText hs, read?_of_hasText hs']
    exact stable_document h
  rw [ofText, ofText, hread]

theorem ofText_varied_skills_first :
    let button := record [("touch", record [("x", .ofInt 5), ("y", .ofInt 6)]),
      ("button", text "B")]
    let skill := record [("center", record [("x", .ofInt 3), ("y", .ofInt 4)]),
      ("radius", .ofInt 80), ("button", text "A")]
    let j := record [("mappings", record [("button_mappings", .array [button]),
      ("skill_casting", .array [skill])])]
    let skill' := record [("note", .array [.object [(.unpaired, .array [])], .string .unpaired,
        .number ⟨true, 0, [1], some 999⟩]), ("radius", .ofInt 80), ("button", text "A"),
      ("center", record [("z", .null), ("y", .ofInt 4), ("x", .ofInt 3)])]
    let j' := record [("version", .array []), ("mappings", record [
      ("skill_casting", .array [skill']), ("button_mappings", .array [button])])]
    let s := String.ofList j.write
    let s' := String.ofList j'.write
    Varied .document j j' ∧ j.HasText s.toList ∧ j'.HasText s'.toList ∧
      ofText s' = ofText s ∧ ∃ table, ofText s' = .ok ⟨none, table⟩ ∧
        Tabulates [⟨⟨1⟩, ⟨5, 6⟩, .button, ⟨100⟩⟩, ⟨⟨0⟩, ⟨3, 4⟩, .skill 80, ⟨101⟩⟩] table := by
  intro button skill j skill' j' s s'
  have hpoint : Varied .point (record [("x", .ofInt 3), ("y", .ofInt 4)])
      (record [("z", .null), ("y", .ofInt 4), ("x", .ofInt 3)]) :=
    .trans (.permute (.swap _ _ [])) (.extend (by decide) _ _)
  have hskill : Varied .skill skill skill' :=
    .trans (@Varied.member .skill (.text "center") _ _ hpoint _)
      (.trans (.permute (@List.perm_append_comm _ [_] [_, _])) (.extend (by decide) _ _))
  have hmappings : Varied .mappings _ _ :=
    .trans (.permute (.swap (.text "skill_casting", .array [skill])
      (.text "button_mappings", .array [button]) []))
      (@Varied.member .mappings (.text "skill_casting") _ _
        (@Varied.item .skills _ 0 _ _ rfl hskill) _)
  have hj : Varied .document j j' :=
    .trans (@Varied.member .document (.text "mappings") _ _ hmappings _)
      (.extend (by decide) _ _)
  have hs : j.HasText s.toList := by
    rw [String.toList_ofList]
    exact j.writes_write.hasText
  have hs' : j'.HasText s'.toList := by
    rw [String.toList_ofList]
    exact j'.writes_write.hasText
  have hsame : ofText s' = ofText s := ofText_varied hj hs hs'
  let m : Mappings := ⟨none, [⟨some ⟨5, 6⟩, some "B"⟩], [⟨some ⟨3, 4⟩, some 80, some "A"⟩]⟩
  have hread : (ofJson? j : Option TouchmapDocument) = some ⟨some m⟩ := by decide
  obtain ⟨table, hmap, htable⟩ := m.touchmap_eq
  refine ⟨hj, hs, hs', hsame, table, ?_, htable⟩
  rw [hsame, ofText, read?_of_hasText hs, hread]
  exact congrArg Except.ok hmap

end Touchmap

end InputRelay
