import InputRelay.Proofs.Toml.Tree
import Mathlib.Data.List.Infix

namespace InputRelay.Toml

/-- A path on which each key that leads to an item of a list has the number of the item. The other
keys have the number zero. -/
abbrev Place := List (String × ℕ)

def plain (path : List String) : Place :=
  path.map (·, 0)

theorem map_fst_plain (path : List String) : (plain path).map Prod.fst = path := by
  rw [plain, List.map_map]
  exact List.map_id path

/-- What a statement says there is: a table with a header of its own, or a value under a key of
the table that is open. -/
inductive Mention
  | header (place : Place)
  | value (table : Place) (path : List String) (v : Value)

namespace Mention

def place : Mention → Place
  | header place => place
  | value table path _ => table ++ plain path

def isValue : Mention → Bool
  | header _ => false
  | value _ _ _ => true

/-- Two mentions can stand in one document, in this order. No table has two headers and no key two
values, and nothing stands below a value. A dotted key does not lead into a table that has a header
or is part of one, and none of its tables gets a header later. -/
def Agrees : Mention → Mention → Prop
  | header place, header place' => place ≠ place'
  | header place, value table path _ => ¬table ++ plain (path.take 1) <+: place
  | value table path _, header place =>
    ¬table ++ plain path <+: place ∧
      ¬(table ++ plain (path.take 1) <+: place ∧ place <+: table ++ plain path)
  | value table path _, value table' path' _ =>
    ¬table ++ plain path <+: table' ++ plain path' ∧ ¬table' ++ plain path' <+: table ++ plain path

instance (m m' : Mention) : Decidable (m.Agrees m') :=
  match m, m' with
  | header _, header _ => inferInstanceAs (Decidable (_ ≠ _))
  | header _, value _ _ _ => inferInstanceAs (Decidable (¬_))
  | value _ _ _, header _ => inferInstanceAs (Decidable (_ ∧ _))
  | value _ _ _, value _ _ _ => inferInstanceAs (Decidable (_ ∧ _))

def shape : Mention → Mention
  | header place => header place
  | value table path _ => value table path .float

theorem agrees_shape (m m' : Mention) : m.shape.Agrees m'.shape ↔ m.Agrees m' := by
  cases m <;> cases m' <;> exact Iff.rfl

end Mention

/-- What the lines of a document mention, and the table that is open behind them. Of lists, each
item is noted as the place of the list. -/
structure Survey where
  items : List (Place × String) := []
  current : List String := []
  mentions : List Mention := []

namespace Survey

/-- The place that a path leads to from another one. The last item of each list is meant. -/
def locateFrom (items : List (Place × String)) (place : Place) : List String → Place
  | [] => place
  | k :: ks => locateFrom items (place ++ [(k, items.count (place, k))]) ks

def locate (s : Survey) (path : List String) : Place :=
  locateFrom s.items [] path

def mention (s : Survey) (m : Mention) : Survey :=
  { s with mentions := s.mentions ++ [m] }

def enter (s : Survey) (path : List String) : Survey :=
  { s with current := path }.mention (.header (s.locate path))

def add (s : Survey) : Statement → Survey
  | .assign path key v => s.mention (.value (s.locate s.current) (path ++ [key]) v)
  | .table path key => s.enter (path ++ [key])
  | .item path key => { s with items := s.items ++ [(s.locate path, key)] }.enter (path ++ [key])

end Survey

def survey (statements : List Statement) : Survey :=
  statements.foldl Survey.add {}

namespace Survey

/-- All mentions agree, and what is a list is nothing else. -/
structure Valid (s : Survey) : Prop where
  agrees : s.mentions.Pairwise Mention.Agrees
  lists : ∀ i ∈ s.items, ∀ m ∈ s.mentions, ¬i.1 ++ [(i.2, 0)] <+: m.place

section Locate

variable {s : Survey} {p q : List String}

theorem locateFrom_concat (items : List (Place × String)) (place : Place) (q : List String)
    (k : String) :
    locateFrom items place (q ++ [k]) =
      locateFrom items place q ++ [(k, items.count (locateFrom items place q, k))] := by
  induction q generalizing place with
  | nil => rfl
  | cons d q ih => exact ih _

theorem locate_concat (s : Survey) (q : List String) (k : String) :
    s.locate (q ++ [k]) = s.locate q ++ [(k, s.items.count (s.locate q, k))] :=
  locateFrom_concat s.items [] q k

theorem map_fst_locate (s : Survey) (q : List String) : (s.locate q).map Prod.fst = q := by
  induction q using List.reverseRecOn with
  | nil => rfl
  | append_singleton q k ih => rw [locate_concat, List.map_append, ih]; rfl

theorem locate_mono (s : Survey) (h : q <+: p) : s.locate q <+: s.locate p := by
  obtain ⟨r, rfl⟩ := h
  induction r using List.reverseRecOn with
  | nil => rw [List.append_nil]
  | append_singleton r k ih =>
    rw [← List.append_assoc, locate_concat]
    exact ih.trans (List.prefix_append _ _)

theorem prefix_of_locate (h : s.locate q <+: s.locate p) : q <+: p := by
  have hnames := h.map Prod.fst
  rwa [map_fst_locate, map_fst_locate] at hnames

theorem locate_injective (h : s.locate q = s.locate p) : q = p := by
  rw [← s.map_fst_locate q, h, map_fst_locate]

theorem number_eq {y : Place} {k : String} {n : ℕ} (h : y ++ [(k, n)] <+: s.locate p) :
    n = s.items.count (y, k) := by
  induction p using List.reverseRecOn with
  | nil => exact absurd h (by simp [locate, locateFrom])
  | append_singleton p d ih =>
    rw [locate_concat, List.prefix_concat_iff] at h
    rcases h with h | h
    · obtain ⟨rfl, hlast⟩ := List.append_inj' h rfl
      cases hlast
      rfl
    · exact ih h

theorem locate_of_nil (h : s.items = []) (q : List String) : s.locate q = plain q := by
  induction q using List.reverseRecOn with
  | nil => rfl
  | append_singleton q k ih =>
    rw [locate_concat, ih, h, plain, plain, List.map_append]
    rfl

/-- A further item of a list does not change the places outside of it. -/
theorem locate_of_item {path : List String} {key : String} (s' : Survey)
    (hitems : s'.items = s.items ++ [(s.locate path, key)]) (h : ¬path ++ [key] <+: q) :
    s'.locate q = s.locate q := by
  induction q using List.reverseRecOn with
  | nil => rfl
  | append_singleton q k ih =>
    have hq := ih fun hle ↦ h (hle.trans (List.prefix_append _ _))
    have hne : (s.locate path, key) ≠ (s.locate q, k) := by
      intro heq
      obtain ⟨hpath, rfl⟩ := Prod.mk.inj heq
      exact h (by rw [locate_injective hpath])
    rw [locate_concat, locate_concat, hq, hitems, List.count_append, List.count_singleton,
      if_neg (by simpa using hne), Nat.add_zero]

theorem locate_item {path : List String} {key : String} (s' : Survey)
    (hitems : s'.items = s.items ++ [(s.locate path, key)]) :
    s'.locate (path ++ [key]) =
      s.locate path ++ [(key, s.items.count (s.locate path, key) + 1)] := by
  have hpath : s'.locate path = s.locate path :=
    locate_of_item s' hitems not_concat_le
  rw [locate_concat, hpath, hitems, List.count_append, List.count_singleton_self]

end Locate

/-- What the mentions say of the role at a place. -/
def Shows (mentions : List Mention) (place : Place) : Option Role → Prop
  | none => ∀ m ∈ mentions, ¬place <+: m.place
  | some (.value v) => ∃ table path, .value table path v ∈ mentions ∧ place = table ++ plain path
  | some (.table .header) => .header place ∈ mentions
  | some .list => .header place ∈ mentions ∧ ∃ p k n, place = p ++ [(k, n + 1)]
  | some (.table .implied) => ∃ header, .header header ∈ mentions ∧ place <+: header
  | some (.table .dotted) => ∃ table path v d, .value table path v ∈ mentions ∧ d ≠ [] ∧
      d <+: path ∧ d ≠ path ∧ place = table ++ plain d

/-- A survey tells what stands where in the tables filled so far. -/
structure Tells (s : Survey) (o : Outline) : Prop where
  current : o.current = s.current
  isOpen : s.current ≠ [] →
    ∃ r ∈ o.entries.role? s.current, r.origin = .header ∧ ∀ v, r ≠ .value v
  shows : ∀ q, q ≠ [] → Shows s.mentions (s.locate q) (o.entries.role? q)
  lists : ∀ q k, (s.locate q, k) ∈ s.items → o.entries.role? (q ++ [k]) = some .list
  numbers : ∀ m ∈ s.mentions, ∀ y k n, y ++ [(k, n)] <+: m.place → n ≤ s.items.count (y, k)
  items : ∀ i ∈ s.items, ∃ m ∈ s.mentions, i.1 <+: m.place

section Steps

variable {s : Survey} {o : Outline} {mentions : List Mention} {place : Place} {r : Role}

theorem plain_mono (table : Place) {p q : List String} (h : p <+: q) :
    table ++ plain p <+: table ++ plain q :=
  (List.prefix_append_right_inj table).mpr (h.map _)

theorem take_one_le {d path : List String} (hd : d ≠ []) (h : d <+: path) :
    path.take 1 <+: d := by
  obtain ⟨k, d, rfl⟩ := List.exists_cons_of_ne_nil hd
  obtain ⟨r, rfl⟩ := h
  exact List.prefix_append [k] d

theorem Shows.mono {more : List Mention} (h : Shows mentions place (some r)) :
    Shows (mentions ++ more) place (some r) := by
  have hmem : ∀ {m}, m ∈ mentions → m ∈ mentions ++ more := List.mem_append_left more
  match r, h with
  | .value v, ⟨table, path, hm, hplace⟩ => exact ⟨table, path, hmem hm, hplace⟩
  | .table .header, hm => exact hmem hm
  | .list, ⟨hm, hlist⟩ => exact ⟨hmem hm, hlist⟩
  | .table .implied, ⟨header, hm, hplace⟩ => exact ⟨header, hmem hm, hplace⟩
  | .table .dotted, ⟨table, path, v, d, hm, hshort⟩ => exact ⟨table, path, v, d, hmem hm, hshort⟩

theorem Shows.exists_mention (h : Shows mentions place (some r)) :
    ∃ m ∈ mentions, place <+: m.place := by
  match r, h with
  | .value v, ⟨table, path, hm, hplace⟩ => exact ⟨_, hm, by rw [hplace]; exact List.prefix_rfl⟩
  | .table .header, hm => exact ⟨_, hm, List.prefix_rfl⟩
  | .list, ⟨hm, _⟩ => exact ⟨_, hm, List.prefix_rfl⟩
  | .table .implied, ⟨header, hm, hplace⟩ => exact ⟨_, hm, hplace⟩
  | .table .dotted, ⟨table, path, v, d, hm, _, hpath, _, hplace⟩ =>
    exact ⟨_, hm, hplace ▸ plain_mono table hpath⟩

theorem Valid.agrees_of_mem {m m' : Mention} (h : (s.mention m).Valid) (hm : m' ∈ s.mentions) :
    m'.Agrees m :=
  (List.pairwise_append.mp h.agrees).2.2 m' hm m (List.mem_singleton_self m)

theorem Tells.shows_some (h : s.Tells o) {q : List String} (hq : q ≠ [])
    (hr : r ∈ o.entries.role? q) : Shows s.mentions (s.locate q) (some r) :=
  Option.mem_def.mp hr ▸ h.shows q hq

theorem Tells.reaches (h : s.Tells o) {path : List String} {header : Place}
    (hagrees : ∀ m ∈ s.mentions, m.Agrees (.header header)) (hpath : s.locate path <+: header) :
    Statement.Reaches (o.entries.role? ·) path := by
  rintro q hq hle _ hrole v rfl
  obtain ⟨table, keys, hm, hplace⟩ := h.shows_some hq hrole
  exact (hagrees _ hm).1 (hplace ▸ (s.locate_mono hle).trans hpath)

theorem Tells.table_fits (h : s.Tells o) {path : List String} {key : String}
    (hvalid : (s.add (.table path key)).Valid) :
    (Statement.table path key).Fits (o.entries.role? ·) o.current := by
  have hagrees : ∀ m ∈ s.mentions, m.Agrees (.header (s.locate (path ++ [key]))) :=
    fun m hm ↦ hvalid.agrees_of_mem (s := { s with current := path ++ [key] }) hm
  refine ⟨h.reaches hagrees (s.locate_mono (List.prefix_append _ _)), fun r hr ↦ ?_⟩
  match r, h.shows_some (List.concat_ne_nil _ _) hr with
  | .value v, ⟨table, keys, hm, hplace⟩ =>
    exact absurd (hplace.symm ▸ List.prefix_rfl) (hagrees _ hm).1
  | .table .header, hm => exact absurd rfl (hagrees _ hm)
  | .list, ⟨hm, _⟩ => exact absurd rfl (hagrees _ hm)
  | .table .implied, _ => rfl
  | .table .dotted, ⟨table, keys, v, d, hm, hd, hkeys, _, hplace⟩ =>
    have hfirst := plain_mono table (take_one_le hd hkeys)
    exact absurd ⟨hplace ▸ hfirst, hplace ▸ plain_mono table hkeys⟩ (hagrees _ hm).2

theorem Tells.item_fits (h : s.Tells o) {path : List String} {key : String}
    (hvalid : (s.add (.item path key)).Valid) :
    (Statement.item path key).Fits (o.entries.role? ·) o.current := by
  obtain ⟨s', hs'⟩ : ∃ s' : Survey, s' = { s with items := s.items ++ [(s.locate path, key)] } :=
    ⟨_, rfl⟩
  have hitem : (s.locate path, key) ∈ s'.items := by
    rw [hs']
    exact List.mem_concat_self
  have hpath : s'.locate path = s.locate path :=
    locate_of_item s' (by rw [hs']) not_concat_le
  have hagrees : ∀ m ∈ s.mentions, m.Agrees (.header (s'.locate (path ++ [key]))) := by
    subst hs'
    exact fun m hm ↦ hvalid.agrees_of_mem (s := { s with
      current := path ++ [key], items := s.items ++ [(s.locate path, key)] }) hm
  refine ⟨h.reaches hagrees (hpath ▸ s'.locate_mono (List.prefix_append _ _)), fun r hr ↦ ?_⟩
  by_cases hmem : (s.locate path, key) ∈ s.items
  · exact Option.some.inj (hr.symm.trans (h.lists path key hmem))
  · obtain ⟨m, hm, hplace⟩ := (h.shows_some (List.concat_ne_nil _ _) hr).exists_mention
    rw [locate_concat, List.count_eq_zero_of_not_mem hmem] at hplace
    subst hs'
    exact absurd hplace (hvalid.lists _ hitem m (List.mem_append_left _ hm))

/-- There are no lists on the way of a key. -/
theorem Valid.locate_append (hvalid : s.Valid) {m : Mention} (hm : m ∈ s.mentions)
    {table d : List String} (hd : s.locate table ++ plain d <+: m.place) :
    s.locate (table ++ d) = s.locate table ++ plain d := by
  induction d using List.reverseRecOn with
  | nil => rw [List.append_nil, plain, List.map_nil, List.append_nil]
  | append_singleton d k ih =>
    rw [plain, List.map_append, ← List.append_assoc, ← plain] at hd ⊢
    have hbefore := ih ((List.prefix_append _ _).trans hd)
    have hfresh : (s.locate table ++ plain d, k) ∉ s.items := fun hmem ↦ hvalid.lists _ hmem m hm hd
    rw [← List.append_assoc, locate_concat, hbefore, List.count_eq_zero_of_not_mem hfresh]
    rfl

theorem Tells.reaches_current (h : s.Tells o) :
    Statement.Reaches (o.entries.role? ·) o.current := by
  rintro q hq ⟨r, hr⟩ _ hrole v rfl
  have hne : s.current ≠ [] := by
    rw [← h.current, ← hr]
    simp [hq]
  obtain ⟨r', hr', -, hvalue⟩ := h.isOpen hne
  rw [← h.current, ← hr] at hr'
  by_cases hnil : r = []
  · rw [hnil, List.append_nil] at hr'
    exact hvalue v (Option.some.inj (hr'.symm.trans hrole))
  · rw [Option.mem_def, Entries.role?_append_of_value hq hnil hrole] at hr'
    cases hr'

theorem Tells.dotted_of_assign (h : s.Tells o) {path d : List String} {key : String} {v : Value}
    {r : Role} (hvalid : (s.add (.assign path key v)).Valid) (hd : d ≠ [])
    (hpath : d <+: path ++ [key]) (hr : o.entries.role? (o.current ++ d) = some r) :
    r = .table .dotted ∧ d ≠ path ++ [key] := by
  have hagrees : ∀ m ∈ s.mentions, m.Agrees (.value (s.locate o.current) (path ++ [key]) v) := by
    rw [h.current]
    exact fun m hm ↦ hvalid.agrees_of_mem hm
  have hplace : s.locate (o.current ++ d) = s.locate o.current ++ plain d := by
    rw [h.current]
    exact hvalid.locate_append List.mem_concat_self (plain_mono _ hpath)
  have hshows := h.shows_some (by simp [hd]) hr
  have hfirst := plain_mono (s.locate o.current) (take_one_le hd hpath)
  have hlast := plain_mono (s.locate o.current) hpath
  rw [hplace] at hshows
  match r, hshows with
  | .value w, ⟨table, keys, hm, heq⟩ => exact absurd (heq ▸ hlast) (hagrees _ hm).1
  | .table .header, hm => exact absurd hfirst (hagrees _ hm)
  | .list, ⟨hm, _⟩ => exact absurd hfirst (hagrees _ hm)
  | .table .implied, ⟨header, hm, hle⟩ => exact absurd (hfirst.trans hle) (hagrees _ hm)
  | .table .dotted, ⟨table, keys, w, d', hm, _, hkeys, _, heq⟩ =>
    refine ⟨rfl, ?_⟩
    rintro rfl
    exact (hagrees _ hm).2 (heq ▸ plain_mono table hkeys)

theorem Tells.origin_of_current (h : s.Tells o) {r : Role}
    (hr : o.entries.role? o.current = some r) : r.origin = .header := by
  rw [h.current] at hr
  by_cases hnil : s.current = []
  · rw [hnil] at hr
    cases hr
  · obtain ⟨r', hr', hheader, -⟩ := h.isOpen hnil
    rwa [Option.some.inj (hr.symm.trans hr')]

theorem Tells.assign_fits (h : s.Tells o) {path : List String} {key : String} {v : Value}
    (hvalid : (s.add (.assign path key v)).Valid) :
    (Statement.assign path key v).Fits (o.entries.role? ·) o.current := by
  refine ⟨h.reaches_current, fun r hr ↦ h.origin_of_current hr, fun d hd hpath r hr ↦ ?_, ?_⟩
  · exact (h.dotted_of_assign hvalid hd (hpath.trans (List.prefix_append _ _)) hr).1
  · rw [Option.eq_none_iff_forall_ne_some]
    intro r hr
    exact (h.dotted_of_assign hvalid (List.concat_ne_nil _ _) List.prefix_rfl hr).2 rfl

/-- How a statement adds to a survey what it changes: a mention at the path of the change and,
where it clears what stands below, an item. -/
structure Follows (s s' : Survey) (o : Outline) (c : Change) (m : Mention) : Prop where
  mentions : s'.mentions = s.mentions ++ [m]
  place : m.place = s'.locate c.path
  items : (s'.items = s.items ∧ c.clears = false ∧ o.entries.role? c.path ≠ some .list) ∨
    ∃ path key, c.path = path ++ [key] ∧ s'.items = s.items ++ [(s.locate path, key)] ∧
      c.clears = true ∧ c.role = .list
  role : Shows s'.mentions (s'.locate c.path) (some c.role)
  made : ∀ q, q ≠ [] → q <+: c.path → q ≠ c.path → o.entries.role? q = none →
    Shows s'.mentions (s'.locate q) (some (.table (c.origin q)))

variable {s' : Survey} {c : Change} {m : Mention} {q : List String}

theorem Follows.locate_eq (hf : Follows s s' o c m) (hq : c.clears = true → ¬c.path <+: q) :
    s'.locate q = s.locate q := by
  rcases hf.items with ⟨hitems, -⟩ | ⟨path, key, hpath, hitems, hclears, -⟩
  · rw [locate, locate, hitems]
  · exact locate_of_item s' hitems (hpath ▸ hq hclears)

theorem Follows.fresh (hf : Follows s s' o c m) (h : s.Tells o) (hclears : c.clears = true)
    (hq : c.path <+: q) {m' : Mention} (hm : m' ∈ s.mentions) : ¬s'.locate q <+: m'.place := by
  intro hle
  rcases hf.items with ⟨-, hkeeps, -⟩ | ⟨path, key, hpath, hitems, -⟩
  · exact Bool.false_ne_true (hkeeps.symm.trans hclears)
  have hitem := (s'.locate_mono hq).trans hle
  rw [hpath, locate_item s' hitems] at hitem
  have hnumber := h.numbers m' hm _ _ _ hitem
  omega

theorem Follows.not_below (hf : Follows s s' o c m) (hq : ¬q <+: c.path) :
    ¬s'.locate q <+: m.place := by
  rw [hf.place]
  exact fun hle ↦ hq (prefix_of_locate hle)

theorem Follows.shows_same (hf : Follows s s' o c m) (h : s.Tells o) (hq : q ≠ [])
    (hsame : c.clears = true → ¬c.path <+: q)
    (hnew : o.entries.role? q = none → ¬q <+: c.path) :
    Shows s'.mentions (s'.locate q) (o.entries.role? q) := by
  have hshows := h.shows q hq
  rw [hf.mentions, hf.locate_eq hsame]
  cases hrole : o.entries.role? q with
  | some r => exact (hrole ▸ hshows).mono
  | none =>
    rw [hrole] at hshows
    intro m' hm'
    rcases List.mem_append.mp hm' with hm' | hm'
    · exact hshows m' hm'
    · rw [List.mem_singleton.mp hm', ← hf.locate_eq hsame]
      exact hf.not_below (hnew hrole)

theorem Follows.shows (hf : Follows s s' o c m) (h : s.Tells o) (hq : q ≠ []) :
    Shows s'.mentions (s'.locate q) (c.apply (o.entries.role? ·) q) := by
  rw [Change.apply]
  split_ifs with heq hbelow hclears habove
  · exact heq ▸ hf.role
  · intro m' hm'
    rw [hf.mentions] at hm'
    rcases List.mem_append.mp hm' with hm' | hm'
    · exact hf.fresh h hclears hbelow hm'
    · rw [List.mem_singleton.mp hm']
      exact hf.not_below fun hle ↦ heq (hle.eq_of_length_le hbelow.length_le)
  · exact hf.shows_same h hq (absurd · hclears)
      fun _ hle ↦ heq (hle.eq_of_length_le hbelow.length_le)
  · cases hrole : o.entries.role? q with
    | none => exact hf.made q hq habove heq hrole
    | some r =>
      rw [Option.some_or, ← hrole]
      exact hf.shows_same h hq (fun _ ↦ hbelow) fun hnone ↦ by rw [hrole] at hnone; cases hnone
  · exact hf.shows_same h hq (fun _ ↦ hbelow) fun _ ↦ habove

theorem Follows.lists (hf : Follows s s' o c m) (h : s.Tells o) {k : String}
    (hk : (s'.locate q, k) ∈ s'.items) :
    c.apply (o.entries.role? ·) (q ++ [k]) = some .list := by
  have hkept : (c.clears = true → ¬c.path <+: q) → (s.locate q, k) ∈ s.items →
      (q ++ [k] = c.path → c.role = .list) →
        c.apply (o.entries.role? ·) (q ++ [k]) = some .list := by
    intro hsame hmem hlast
    have hlist := h.lists q k hmem
    rw [Change.apply, hlist]
    split_ifs with heq hbelow hclears habove
    · rw [hlast heq]
    · rcases List.prefix_concat_iff.mp hbelow with heq' | hbelow
      · exact absurd heq'.symm heq
      · exact absurd hbelow (hsame hclears)
    · rfl
    · rfl
    · rfl
  rcases hf.items with ⟨hitems, hclears, hlast⟩ | ⟨path, key, hpath, hitems, hclears, hrole⟩
  · have hsame : c.clears = true → ¬c.path <+: q := fun h ↦ by rw [hclears] at h; cases h
    rw [hf.locate_eq hsame, hitems] at hk
    exact hkept hsame hk fun heq ↦ absurd (heq ▸ h.lists q k hk) hlast
  · rw [hitems] at hk
    rcases List.mem_append.mp hk with hk | hk
    · obtain ⟨m', hm', hle⟩ := h.items _ hk
      have hsame : ¬c.path <+: q := fun hbelow ↦ hf.fresh h hclears hbelow hm' hle
      rw [hf.locate_eq fun _ ↦ hsame] at hk
      exact hkept (fun _ ↦ hsame) hk fun _ ↦ hrole
    · obtain ⟨hplace, rfl⟩ := Prod.mk.inj (List.mem_singleton.mp hk)
      have hq : q = path := by rw [← s'.map_fst_locate q, hplace, map_fst_locate]
      rw [Change.apply, if_pos (by rw [hq, hpath]), hrole]

theorem Follows.numbers (hf : Follows s s' o c m) (h : s.Tells o) :
    ∀ m' ∈ s'.mentions, ∀ y k n, y ++ [(k, n)] <+: m'.place → n ≤ s'.items.count (y, k) := by
  intro m' hm' y k n hle
  rw [hf.mentions] at hm'
  rcases List.mem_append.mp hm' with hm' | hm'
  · refine (h.numbers m' hm' y k n hle).trans ?_
    rcases hf.items with ⟨hitems, -⟩ | ⟨path, key, -, hitems, -⟩
    · rw [hitems]
    · rw [hitems, List.count_append]
      exact Nat.le_add_right _ _
  · rw [List.mem_singleton.mp hm', hf.place] at hle
    exact (number_eq hle).le

theorem Follows.item_mentioned (hf : Follows s s' o c m) (h : s.Tells o) {i : Place × String}
    (hi : i ∈ s'.items) : ∃ m' ∈ s'.mentions, i.1 <+: m'.place := by
  rw [hf.mentions]
  have hold : i ∈ s.items → ∃ m' ∈ s.mentions ++ [m], i.1 <+: m'.place := by
    intro hi
    obtain ⟨m', hm', hle⟩ := h.items i hi
    exact ⟨m', List.mem_append_left _ hm', hle⟩
  rcases hf.items with ⟨hitems, -⟩ | ⟨path, key, hpath, hitems, -⟩
  · exact hold (hitems ▸ hi)
  · rw [hitems] at hi
    rcases List.mem_append.mp hi with hi | hi
    · exact hold hi
    · obtain rfl := List.mem_singleton.mp hi
      have hbelow : ¬c.path <+: path := by
        rw [hpath]
        exact not_concat_le
      refine ⟨m, List.mem_concat_self, ?_⟩
      rw [hf.place, ← hf.locate_eq fun _ ↦ hbelow]
      exact s'.locate_mono (by rw [hpath]; exact List.prefix_append _ _)

theorem Follows.tells (hf : Follows s s' o c m) (h : s.Tells o) {o' : Outline}
    (hmakes : c.Makes o.entries o'.entries) (hcurrent : o'.current = s'.current)
    (hopen : s'.current ≠ [] → ∃ r ∈ c.apply (o.entries.role? ·) s'.current,
      r.origin = .header ∧ ∀ v, r ≠ .value v) : s'.Tells o' where
  current := hcurrent
  isOpen hne := by
    rw [hmakes _ hne]
    exact hopen hne
  shows q hq := by
    rw [hmakes q hq]
    exact hf.shows h hq
  lists q k hk := by
    rw [hmakes _ (List.concat_ne_nil _ _)]
    exact hf.lists h hk
  numbers := hf.numbers h
  items _ := hf.item_mentioned h

theorem follows_table {path : List String} {key : String}
    (hfits : (Statement.table path key).Fits (o.entries.role? ·) o.current) :
    Follows s (s.add (.table path key)) o ((Statement.table path key).change o.current)
      (.header (s.locate (path ++ [key]))) where
  mentions := rfl
  place := rfl
  items := .inl ⟨rfl, rfl, fun hlist ↦ absurd (hfits.2 _ hlist) (by nofun)⟩
  role := List.mem_concat_self
  made _ _ hq _ _ := ⟨_, List.mem_concat_self, s.locate_mono hq⟩

theorem follows_item {path : List String} {key : String} :
    Follows s (s.add (.item path key)) o ((Statement.item path key).change o.current)
      (.header ((s.add (.item path key)).locate (path ++ [key]))) where
  mentions := rfl
  place := rfl
  items := .inr ⟨path, key, rfl, rfl, rfl, rfl⟩
  role := by
    exact ⟨List.mem_concat_self, _, key, _, locate_item (s.add (.item path key)) rfl⟩
  made _ _ hq _ _ := ⟨_, List.mem_concat_self, (s.add (.item path key)).locate_mono hq⟩

theorem follows_assign (h : s.Tells o) {path : List String} {key : String} {v : Value}
    (hvalid : (s.add (.assign path key v)).Valid)
    (hfits : (Statement.assign path key v).Fits (o.entries.role? ·) o.current) :
    Follows s (s.add (.assign path key v)) o ((Statement.assign path key v).change o.current)
      (.value (s.locate s.current) (path ++ [key]) v) := by
  have hplace : ∀ {d}, d <+: path ++ [key] →
      s.locate (o.current ++ d) = s.locate s.current ++ plain d := by
    intro d hd
    rw [h.current]
    exact hvalid.locate_append List.mem_concat_self (plain_mono _ hd)
  refine ⟨rfl, (hplace List.prefix_rfl).symm, .inl ⟨rfl, rfl, fun hlist ↦ ?_⟩,
    ⟨_, _, List.mem_concat_self, hplace List.prefix_rfl⟩, fun q hq hpath hne hnone ↦ ?_⟩
  · cases hfits.2.2.2.symm.trans hlist
  have hbehind : ¬q <+: o.current := by
    rintro ⟨r, hr⟩
    have hcurrent := Entries.role?_append_of_none hq hnone r
    rw [hr, h.current] at hcurrent
    obtain ⟨r', hr', -⟩ := h.isOpen (by rw [← h.current, ← hr]; simp [hq])
    cases hcurrent.symm.trans hr'
  have hcurrent : o.current <+: o.current ++ (path ++ [key]) := List.prefix_append _ _
  rcases List.prefix_or_prefix_of_prefix hpath hcurrent with hle | ⟨d, rfl⟩
  · exact absurd hle hbehind
  have hd : d <+: path ++ [key] := (List.prefix_append_right_inj _).mp hpath
  have horigin : ((Statement.assign path key v).change o.current).origin (o.current ++ d) =
      .dotted := if_neg hbehind
  rw [horigin]
  exact ⟨_, _, v, d, List.mem_concat_self, fun hnil ↦ hbehind (by simp [hnil]), hd,
    fun heq ↦ hne (by rw [heq]; rfl), hplace hd⟩

/-- A statement that keeps a document valid can be added. -/
theorem Tells.exists_add (h : s.Tells o) {st : Statement} (hvalid : (s.add st).Valid) :
    ∃ o', o.add st = some o' ∧ (s.add st).Tells o' := by
  have hset : ∀ c : Change, ∀ r ∈ some c.role, r ∈ c.apply (o.entries.role? ·) c.path := by
    intro c r hr
    rwa [Change.apply, if_pos rfl]
  cases st with
  | table path key =>
    have hfits := h.table_fits hvalid
    obtain ⟨o', hadd, hcurrent, hmakes⟩ := Outline.exists_add hfits
    exact ⟨o', hadd, (follows_table hfits).tells h hmakes hcurrent fun _ ↦
      ⟨.table .header, hset _ _ rfl, rfl, by simp⟩⟩
  | item path key =>
    obtain ⟨o', hadd, hcurrent, hmakes⟩ := Outline.exists_add (h.item_fits hvalid)
    exact ⟨o', hadd, follows_item.tells h hmakes hcurrent fun _ ↦
      ⟨.list, hset _ _ rfl, rfl, by simp⟩⟩
  | assign path key v =>
    have hfits := h.assign_fits hvalid
    obtain ⟨o', hadd, hcurrent, hmakes⟩ := Outline.exists_add hfits
    refine ⟨o', hadd, (follows_assign h hvalid hfits).tells h hmakes (hcurrent.trans h.current)
      fun hne ↦ ?_⟩
    obtain ⟨r, hr, hrole⟩ := h.isOpen hne
    refine ⟨r, Change.apply_of_some hr fun hle ↦ ?_, hrole⟩
    rw [Statement.change, h.current] at hle
    exact absurd (eq_nil_of_append_le hle) (List.concat_ne_nil _ _)

theorem Valid.of_add {st : Statement} (h : (s.add st).Valid) : s.Valid := by
  have hmentions : s.mentions <+: (s.add st).mentions := by
    cases st <;> exact List.prefix_append _ _
  have hitems : s.items ⊆ (s.add st).items := by
    cases st with
    | assign _ _ _ | table _ _ => exact List.Subset.refl _
    | item _ _ => exact List.subset_append_left _ _
  exact ⟨h.agrees.sublist hmentions.sublist,
    fun i hi m hm ↦ h.lists i (hitems hi) m (hmentions.subset hm)⟩

theorem Valid.of_foldl {statements : List Statement} (h : (statements.foldl Survey.add s).Valid) :
    s.Valid := by
  induction statements generalizing s with
  | nil => exact h
  | cons st statements ih => exact (ih h).of_add

theorem Tells.run (h : s.Tells o) {statements : List Statement}
    (hvalid : (statements.foldl Survey.add s).Valid) :
    ∃ o', statements.foldlM Outline.add o = some o' ∧ (statements.foldl Survey.add s).Tells o' := by
  induction statements generalizing s o with
  | nil => exact ⟨o, rfl, h⟩
  | cons st statements ih =>
    obtain ⟨o₁, hadd, htells⟩ := h.exists_add (Valid.of_foldl hvalid)
    obtain ⟨o₂, hrun, htells⟩ := ih htells hvalid
    exact ⟨o₂, by rw [List.foldlM_cons, hadd]; exact hrun, htells⟩

theorem tells_nil : ({} : Survey).Tells {} where
  current := rfl
  isOpen h := absurd rfl h
  shows q _ := by
    cases q <;> exact fun _ hm ↦ absurd hm List.not_mem_nil
  lists _ _ h := absurd h List.not_mem_nil
  numbers _ hm := absurd hm List.not_mem_nil
  items _ hi := absurd hi List.not_mem_nil

end Steps

end Survey

end InputRelay.Toml
