import InputRelay.Toml.Tree
import Mathlib.Data.List.Infix

namespace InputRelay.Toml

inductive Role
  | value (v : Value)
  | table (origin : Origin)
  | list

/-- A list is as good as a table with a header. -/
def Role.origin : Role → Origin
  | table origin => origin
  | value _ | list => .header

/-- What leads on: anything but a value, and for a dotted key no table with a header. -/
def Role.Leads (dotted : Bool) (r : Role) : Prop :=
  (∀ v, r ≠ .value v) ∧ (dotted = true → r ≠ .table .header)

namespace Node

def role : Node → Role
  | leaf v => .value v
  | table origin _ => .table origin
  | list _ => .list

def entries : Node → Entries
  | leaf _ => []
  | table _ es => es
  | list tables => tables.getLast?.getD []

def refill : Node → Entries → Node
  | leaf v, _ => leaf v
  | table origin _, es => table origin es
  | list tables, es => list (tables.dropLast ++ [es])

theorem role_refill (n : Node) (es : Entries) : (n.refill es).role = n.role := by
  cases n <;> rfl

theorem entries_refill {n : Node} (h : ∀ v, n.role ≠ .value v) (es : Entries) :
    (n.refill es).entries = es := by
  cases n with
  | leaf v => exact absurd rfl (h v)
  | table origin _ => rfl
  | list tables => simp [refill, entries]

end Node

namespace Entries

/-- What stands at a path, if of each list on the way the last table is meant. -/
def role? : List String → Entries → Option Role
  | [], _ => none
  | k :: ks, es => (es.lookup k).bind fun n ↦ if ks = [] then some n.role else role? ks n.entries

def put (k : String) (n : Node) (es : Entries) : Entries :=
  if (es.lookup k).isNone then es ++ [(k, n)] else replace k n es

section Put

variable {k : String} {es : Entries}

theorem lookup_cons_eq (k k' : String) (n : Node) (es : Entries) :
    List.lookup k ((k', n) :: es) = if k' = k then some n else es.lookup k := by
  rw [List.lookup_cons]
  by_cases hk : k' = k
  · simp [hk]
  · rw [if_neg hk, beq_false_of_ne (Ne.symm hk)]

theorem lookup_replace (k' : String) (n : Node) (es : Entries) :
    (replace k n es).lookup k' =
      if k = k' then (es.lookup k).map fun _ ↦ n else es.lookup k' := by
  induction es with
  | nil => simp [replace]
  | cons e es ih =>
    obtain ⟨d, m⟩ := e
    rw [replace, List.map_cons, ← replace, lookup_cons_eq, lookup_cons_eq, lookup_cons_eq, ih]
    by_cases hd : d = k
    · by_cases hk : k = k'
      · simp [hd, hk]
      · simp [hd, hk]
    · by_cases hk : k = k'
      · subst hk
        simp [hd]
      · simp [hd, hk]

theorem lookup_put (k' : String) (n : Node) (es : Entries) :
    (put k n es).lookup k' = if k = k' then some n else es.lookup k' := by
  unfold put
  cases h : es.lookup k with
  | none =>
    rw [Option.isNone_none, if_pos rfl, List.lookup_append, lookup_cons_eq, List.lookup_nil]
    by_cases hk : k = k'
    · subst hk
      simp [h]
    · simp [hk]
  | some m =>
    rw [Option.isNone_some, if_neg Bool.false_ne_true, lookup_replace, h]
    rfl

end Put

def made (dotted : Bool) : Origin :=
  if dotted then .dotted else .implied

section Update

variable {dotted : Bool} {change : Origin → Entries → Option Entries} {k : String}
  {ks : List String} {origin : Origin} {es : Entries}

theorem update_cons {n : Node}
    (hn : n = (es.lookup k).getD (.table (made dotted) []))
    (hrole : n.role.Leads dotted) :
    update dotted change (k :: ks) origin es =
      (update dotted change ks n.role.origin n.entries).map fun inner ↦
        put k (n.refill inner) es := by
  cases h : es.lookup k with
  | none =>
    rw [h] at hn
    simp only [hn, Option.getD_none, update, h, Node.role, Node.entries, Node.refill, put,
      Role.origin, made]
    cases update dotted change ks _ [] <;> rfl
  | some m =>
    obtain rfl : n = m := by rw [hn, h, Option.getD_some]
    cases n with
    | leaf v => exact absurd rfl (hrole.1 v)
    | table o inner =>
      have hheader : ¬(dotted = true ∧ o = .header) := by
        rintro ⟨hdotted, rfl⟩
        exact hrole.2 hdotted rfl
      simp only [update, h, if_neg hheader, Node.role, Node.entries, Node.refill, put, Role.origin]
      cases update dotted change ks o inner <;> rfl
    | list tables =>
      simp only [update, h, Node.role, Node.entries, Node.refill, put, Role.origin]
      cases update dotted change ks .header (tables.getLast?.getD []) <;> rfl

end Update

section Changes

variable {k : String} {es inner : Entries}

theorem role?_cons (k : String) (ks : List String) (es : Entries) :
    role? (k :: ks) es =
      (es.lookup k).bind fun n ↦ if ks = [] then some n.role else role? ks n.entries :=
  rfl

theorem role?_put_of_ne {k' : String} (h : k ≠ k') (n : Node) (ks : List String) :
    role? (k' :: ks) (put k n es) = role? (k' :: ks) es := by
  rw [role?_cons, role?_cons, lookup_put, if_neg h]

theorem role?_put_self (n : Node) (ks : List String) :
    role? (k :: ks) (put k n es) = if ks = [] then some n.role else role? ks n.entries := by
  rw [role?_cons, lookup_put, if_pos rfl, Option.bind_some]

theorem role?_entries {n : Node} {origin : Origin}
    (hn : n = (es.lookup k).getD (.table origin [])) {q : List String} (hq : q ≠ []) :
    n.entries.role? q = es.role? (k :: q) := by
  rw [role?_cons]
  cases hlookup : es.lookup k with
  | none =>
    rw [hlookup] at hn
    subst hn
    cases q <;> rfl
  | some m =>
    rw [hlookup] at hn
    subst hn
    rw [Option.bind_some, if_neg hq]

theorem role?_append_of_none {q : List String} (hq : q ≠ []) (h : es.role? q = none)
    (r : List String) : es.role? (q ++ r) = none := by
  induction q generalizing es with
  | nil => exact absurd rfl hq
  | cons k q ih =>
    rw [List.cons_append, role?_cons]
    rw [role?_cons] at h
    cases hlookup : es.lookup k with
    | none => rfl
    | some n =>
      rw [hlookup, Option.bind_some] at h
      split at h
      · cases h
      · rename_i hne
        rw [Option.bind_some, if_neg (by simp [hne])]
        exact ih hne h

theorem role?_append_of_value {q r : List String} (hq : q ≠ []) (hr : r ≠ []) {v : Value}
    (h : es.role? q = some (.value v)) : es.role? (q ++ r) = none := by
  induction q generalizing es with
  | nil => exact absurd rfl hq
  | cons k q ih =>
    rw [role?_cons] at h
    obtain ⟨n, hlookup, hn⟩ := Option.bind_eq_some_iff.mp h
    rw [List.cons_append, role?_cons, hlookup, Option.bind_some, if_neg (by simp [hr])]
    split at hn
    · rename_i hnil
      subst hnil
      cases n with
      | leaf _ => cases r <;> rfl
      | table _ _ | list _ => cases hn
    · rename_i hne
      exact ih hne hn

end Changes

end Entries

/-- A role is set at a path. Tables that are missing on the way to it are made, and what stands
below it is kept or cleared. -/
structure Change where
  path : List String
  role : Role
  clears : Bool
  origin : List String → Origin

namespace Change

def apply (c : Change) (roles : List String → Option Role) (q : List String) : Option Role :=
  if q = c.path then some c.role
  else if c.path <+: q then if c.clears then none else roles q
  else if q <+: c.path then (roles q).or (some (.table (c.origin q)))
  else roles q

def below (c : Change) (path rest : List String) : Change :=
  { c with path := rest, origin := fun q ↦ c.origin (path ++ q) }

def Makes (c : Change) (es es' : Entries) : Prop :=
  ∀ q, q ≠ [] → es'.role? q = c.apply (es.role? ·) q

variable {c : Change} {k : String} {ks : List String} {es inner : Entries}

theorem apply_cons_of_ne {k' : String} (h : k ≠ k') (hc : c.path = k :: ks)
    (roles : List String → Option Role) (q : List String) :
    c.apply roles (k' :: q) = roles (k' :: q) := by
  rw [apply, hc, if_neg (by simp [Ne.symm h]), if_neg (by simp [List.cons_prefix_cons, h]),
    if_neg (by simp [List.cons_prefix_cons, Ne.symm h])]

theorem apply_of_some {roles : List String → Option Role} {q : List String} {r : Role}
    (hr : roles q = some r) (hq : ¬c.path <+: q) : c.apply roles q = some r := by
  have hne : q ≠ c.path := fun heq ↦ hq (heq ▸ List.prefix_rfl)
  rw [apply, if_neg hne, if_neg hq, hr]
  split <;> rfl

theorem makes_put {n : Node} (hc : c.path = [k]) (hrole : c.role = n.role)
    (hbelow : ∀ q, q ≠ [] → n.entries.role? q = if c.clears then none else es.role? (k :: q)) :
    c.Makes es (es.put k n) := by
  rintro (_ | ⟨k', q⟩) hq
  · exact absurd rfl hq
  by_cases hk : k = k'
  · subst hk
    rw [Entries.role?_put_self, apply, hc]
    by_cases hnil : q = []
    · simp [hnil, hrole]
    · have hne : k :: q ≠ [k] := fun h ↦ hnil (List.cons.inj h).2
      have hle : [k] <+: k :: q := List.prefix_append [k] q
      rw [if_neg hnil, hbelow q hnil, if_neg hne, if_pos hle]
  · rw [Entries.role?_put_of_ne hk, apply_cons_of_ne hk hc]

theorem makes_cons {n : Node} (hc : c.path = k :: ks) (hks : ks ≠ [])
    (hn : n = (es.lookup k).getD (.table (c.origin [k]) [])) (hrole : ∀ v, n.role ≠ .value v)
    (h : (c.below [k] ks).Makes n.entries inner) : c.Makes es (es.put k (n.refill inner)) := by
  rintro (_ | ⟨k', q⟩) hq
  · exact absurd rfl hq
  by_cases hk : k = k'
  · subst hk
    rw [Entries.role?_put_self, Node.role_refill, Node.entries_refill hrole]
    by_cases hnil : q = []
    · subst hnil
      rw [if_pos rfl, apply, hc, if_neg (by simp [Ne.symm hks]),
        if_neg (by simp [List.cons_prefix_cons, hks]), if_pos (by simp), Entries.role?_cons]
      cases hlookup : es.lookup k with
      | none =>
        rw [hlookup] at hn
        subst hn
        rfl
      | some m =>
        rw [hlookup] at hn
        subst hn
        rfl
    · have hroles := Entries.role?_entries hn hnil
      rw [if_neg hnil, h q hnil, apply, apply, below, hc, hroles]
      simp [List.cons_prefix_cons]
  · rw [Entries.role?_put_of_ne hk, apply_cons_of_ne hk hc]

/-- The origin of the table at a path, where it may yet have to be made. -/
def originAt (dotted : Bool) (origin : Origin) (path : List String) (es : Entries) : Origin :=
  if path = [] then origin else ((es.role? path).map Role.origin).getD (Entries.made dotted)

theorem role_leads {dotted : Bool} {n : Node}
    (hn : n = (es.lookup k).getD (.table (Entries.made dotted) []))
    (h : ∀ r ∈ es.role? [k], r.Leads dotted) : n.role.Leads dotted := by
  rw [Entries.role?_cons] at h
  cases hlookup : es.lookup k with
  | none =>
    rw [hlookup] at hn
    subst hn
    refine ⟨nofun, ?_⟩
    rintro rfl
    nofun
  | some m =>
    rw [hlookup] at hn h
    subst hn
    exact h _ rfl

theorem originAt_cons {dotted : Bool} {n : Node} (origin : Origin)
    (hn : n = (es.lookup k).getD (.table (Entries.made dotted) [])) :
    originAt dotted n.role.origin ks n.entries = originAt dotted origin (k :: ks) es := by
  rw [originAt, originAt, if_neg (List.cons_ne_nil _ _)]
  by_cases hks : ks = []
  · subst hks
    rw [if_pos rfl, Entries.role?_cons, hn]
    cases es.lookup k <;> rfl
  · rw [if_neg hks, Entries.role?_entries hn hks]

theorem originAt_ne_dotted {path : List String} (h : ∀ r ∈ es.role? path, r.origin = .header) :
    originAt false .header path es ≠ .dotted := by
  rw [originAt]
  split
  · nofun
  · cases hrole : es.role? path with
    | none => nofun
    | some r => simp [h r hrole]

/-- The table at the path of an update can be reached if all that stands on the way leads on. -/
theorem exists_update {dotted : Bool} (change : Origin → Entries → Option Entries)
    {path rest : List String} (origin : Origin) (hrest : rest ≠ [])
    (hlead : ∀ q, q ≠ [] → q <+: path → ∀ r ∈ es.role? q, r.Leads dotted)
    (horigin : ∀ q, q ≠ [] → q <+: path → c.origin q = Entries.made dotted)
    (hc : c.path = path ++ rest)
    (hchange : ∀ inner : Entries, (∀ q, q ≠ [] → inner.role? q = es.role? (path ++ q)) →
      ∃ inner', change (originAt dotted origin path es) inner = some inner' ∧
        (c.below path rest).Makes inner inner') :
    ∃ es', Entries.update dotted change path origin es = some es' ∧ c.Makes es es' := by
  induction path generalizing c origin es with
  | nil =>
    obtain ⟨es', hes', hmakes⟩ := hchange es fun q _ ↦ rfl
    have hbelow : c.below [] rest = c := by
      rw [below, ← List.nil_append rest, ← hc]
      rfl
    rw [hbelow] at hmakes
    exact ⟨es', hes', hmakes⟩
  | cons k ks ih =>
    obtain ⟨n, hn⟩ : ∃ n, n = (es.lookup k).getD (.table (Entries.made dotted) []) := ⟨_, rfl⟩
    have hk : [k] <+: k :: ks := List.prefix_append [k] ks
    have hroles : ∀ q, q ≠ [] → n.entries.role? q = es.role? (k :: q) :=
      fun q hq ↦ Entries.role?_entries hn hq
    have hrole : n.role.Leads dotted := role_leads hn (hlead [k] (List.cons_ne_nil _ _) hk)
    have horiginAt : originAt dotted n.role.origin ks n.entries =
        originAt dotted origin (k :: ks) es := originAt_cons origin hn
    obtain ⟨inner', hinner', hmakes⟩ := @ih (c.below [k] (ks ++ rest)) n.entries n.role.origin
      (fun q hq hqs r hr ↦ hlead (k :: q) (List.cons_ne_nil _ _)
        (List.cons_prefix_cons.mpr ⟨rfl, hqs⟩) r (by rwa [← hroles q hq]))
      (fun q hq hqs ↦ horigin (k :: q) (List.cons_ne_nil _ _)
        (List.cons_prefix_cons.mpr ⟨rfl, hqs⟩))
      rfl
      (fun inner hinner ↦ by
        rw [horiginAt]
        exact hchange inner fun q hq ↦ (hinner q hq).trans (hroles _ (by simp [hq])))
    refine ⟨_, by rw [Entries.update_cons hn hrole, hinner', Option.map_some], ?_⟩
    refine makes_cons hc (by simp [hrest]) ?_ hrole.1 hmakes
    rw [hn, horigin [k] (List.cons_ne_nil _ _) hk]

section Ends

variable {v : Value}

theorem exists_openTable (hc : c.path = [k]) (hrole : c.role = .table .header)
    (hclears : c.clears = false) (h : ∀ r ∈ es.role? [k], r = .table .implied) :
    ∃ es', es.openTable k = some es' ∧ c.Makes es es' := by
  rw [Entries.role?_cons] at h
  cases hlookup : es.lookup k with
  | none =>
    refine ⟨es.put k (.table .header []), ?_, makes_put hc hrole fun q hq ↦ ?_⟩
    · simp [Entries.openTable, hlookup, Entries.put]
    · rw [hclears, if_neg Bool.false_ne_true, Entries.role?_cons, hlookup]
      cases q <;> rfl
  | some n =>
    have hn : n.role = .table .implied := h _ (by rw [hlookup]; rfl)
    cases n with
    | leaf _ => cases hn
    | list _ => cases hn
    | table origin inner =>
      cases hn
      refine ⟨es.put k (.table .header inner), ?_, makes_put hc hrole fun q hq ↦ ?_⟩
      · simp [Entries.openTable, hlookup, Entries.put]
      · rw [hclears, if_neg Bool.false_ne_true, Entries.role?_cons, hlookup, Option.bind_some,
          if_neg hq]
        rfl

theorem exists_openItem (hc : c.path = [k]) (hrole : c.role = .list) (hclears : c.clears = true)
    (h : ∀ r ∈ es.role? [k], r = .list) :
    ∃ es', es.openItem k = some es' ∧ c.Makes es es' := by
  rw [Entries.role?_cons] at h
  have hempty : ∀ tables q, q ≠ [] → (Node.list (tables ++ [[]])).entries.role? q =
      if c.clears then none else es.role? (k :: q) := by
    intro tables q hq
    rw [hclears, if_pos rfl, Node.entries, List.getLast?_concat, Option.getD_some]
    cases q <;> rfl
  cases hlookup : es.lookup k with
  | none =>
    refine ⟨es.put k (.list [[]]), ?_, makes_put hc hrole (hempty [])⟩
    simp [Entries.openItem, hlookup, Entries.put]
  | some n =>
    have hn : n.role = .list := h _ (by rw [hlookup]; rfl)
    cases n with
    | leaf _ => cases hn
    | table _ _ => cases hn
    | list tables =>
      refine ⟨es.put k (.list (tables ++ [[]])), ?_, makes_put hc hrole (hempty tables)⟩
      simp [Entries.openItem, hlookup, Entries.put]

theorem makes_leaf (hc : c.path = [k]) (hrole : c.role = .value v) (hclears : c.clears = false)
    (h : es.role? [k] = none) :
    es.lookup k = none ∧ c.Makes es (es ++ [(k, .leaf v)]) := by
  have hlookup : es.lookup k = none := by
    rw [Entries.role?_cons] at h
    cases hlookup : es.lookup k with
    | none => rfl
    | some n =>
      rw [hlookup] at h
      cases h
  have hput : es.put k (.leaf v) = es ++ [(k, .leaf v)] := by
    simp [Entries.put, hlookup]
  refine ⟨hlookup, hput ▸ makes_put hc hrole fun q hq ↦ ?_⟩
  rw [hclears, if_neg Bool.false_ne_true, Entries.role?_cons, hlookup]
  cases q <;> rfl

/-- A key is set below a table that a dotted key may lead to, or in the open table itself. -/
theorem exists_assign {path : List String} {origin : Origin} (hc : c.path = path ++ [k])
    (hrole : c.role = .value v) (hclears : c.clears = false)
    (hmade : ∀ q, q ≠ [] → q <+: path → c.origin q = .dotted) (hopen : origin ≠ .dotted)
    (hdotted : ∀ q, q ≠ [] → q <+: path → ∀ r ∈ es.role? q, r = .table .dotted)
    (hlast : es.role? (path ++ [k]) = none) :
    ∃ es', es.assign path k v origin = some es' ∧ c.Makes es es' := by
  refine exists_update _ _ (List.cons_ne_nil k []) ?_ hmade hc fun inner hinner ↦ ?_
  · intro q hq hpath r hr
    obtain rfl := hdotted q hq hpath r hr
    exact ⟨nofun, nofun⟩
  have horigin : originAt true origin path es = .dotted ↔ path ≠ [] := by
    rw [originAt]
    split
    · rename_i hnil
      exact iff_of_false hopen (not_not_intro hnil)
    · rename_i hne
      refine iff_of_true ?_ hne
      cases hpath : es.role? path with
      | none => rfl
      | some r =>
        obtain rfl := hdotted path hne List.prefix_rfl r hpath
        rfl
  obtain ⟨hlookup, hmakes⟩ := makes_leaf (c := c.below path [k]) rfl hrole hclears
    ((hinner [k] (List.cons_ne_nil _ _)).trans hlast)
  exact ⟨_, by rw [if_pos horigin, hlookup, Option.isNone_none, if_pos rfl], hmakes⟩

end Ends

end Change

namespace Statement

def change (current : List String) : Statement → Change
  | assign path key v =>
    ⟨current ++ (path ++ [key]), .value v, false, fun q ↦
      if q <+: current then .implied else .dotted⟩
  | table path key => ⟨path ++ [key], .table .header, false, fun _ ↦ .implied⟩
  | item path key => ⟨path ++ [key], .list, true, fun _ ↦ .implied⟩

def opened (current : List String) : Statement → List String
  | assign _ _ _ => current
  | table path key | item path key => path ++ [key]

def Reaches (roles : List String → Option Role) (path : List String) : Prop :=
  ∀ q, q ≠ [] → q <+: path → ∀ r ∈ roles q, ∀ v, r ≠ .value v

def Fits (roles : List String → Option Role) (current : List String) : Statement → Prop
  | assign path key _ =>
    Reaches roles current ∧ (∀ r ∈ roles current, r.origin = .header) ∧
      (∀ d, d ≠ [] → d <+: path → ∀ r ∈ roles (current ++ d), r = .table .dotted) ∧
        roles (current ++ (path ++ [key])) = none
  | table path key => Reaches roles path ∧ ∀ r ∈ roles (path ++ [key]), r = .table .implied
  | item path key => Reaches roles path ∧ ∀ r ∈ roles (path ++ [key]), r = .list

end Statement

theorem eq_nil_of_append_le {α : Type} {p d : List α} (h : p ++ d <+: p) : d = [] := by
  have hle := h.length_le
  rw [List.length_append] at hle
  exact List.eq_nil_of_length_eq_zero (by omega)

theorem not_concat_le {α : Type} {p : List α} {a : α} : ¬p ++ [a] <+: p :=
  fun h ↦ List.cons_ne_nil a [] (eq_nil_of_append_le h)

/-- A statement that fits is added, and changes what it should. -/
theorem Outline.exists_add {o : Outline} {s : Statement}
    (h : s.Fits (o.entries.role? ·) o.current) :
    ∃ o', o.add s = some o' ∧ o'.current = s.opened o.current ∧
      (s.change o.current).Makes o.entries o'.entries := by
  have hlead : ∀ {path}, Statement.Reaches (o.entries.role? ·) path →
      ∀ q, q ≠ [] → q <+: path → ∀ r ∈ o.entries.role? q, r.Leads false :=
    fun hreach q hq hpath r hr ↦ ⟨hreach q hq hpath r hr, nofun⟩
  cases s with
  | table path key =>
    obtain ⟨hreach, hlast⟩ := h
    obtain ⟨es, hes, hmakes⟩ := Change.exists_update
      (c := (Statement.table path key).change o.current) (fun _ ↦ Entries.openTable key) .header
      (List.cons_ne_nil key []) (hlead hreach) (fun _ _ _ ↦ rfl) rfl fun inner hinner ↦
        Change.exists_openTable rfl rfl rfl (by rwa [hinner _ (List.cons_ne_nil _ _)])
    exact ⟨⟨es, path ++ [key]⟩, by rw [Outline.add, hes]; rfl, rfl, hmakes⟩
  | item path key =>
    obtain ⟨hreach, hlast⟩ := h
    obtain ⟨es, hes, hmakes⟩ := Change.exists_update
      (c := (Statement.item path key).change o.current) (fun _ ↦ Entries.openItem key) .header
      (List.cons_ne_nil key []) (hlead hreach) (fun _ _ _ ↦ rfl) rfl fun inner hinner ↦
        Change.exists_openItem rfl rfl rfl (by rwa [hinner _ (List.cons_ne_nil _ _)])
    exact ⟨⟨es, path ++ [key]⟩, by rw [Outline.add, hes]; rfl, rfl, hmakes⟩
  | assign path key v =>
    obtain ⟨hreach, hcurrent, hdotted, hlast⟩ := h
    have hopen : Change.originAt false .header o.current o.entries ≠ .dotted :=
      Change.originAt_ne_dotted hcurrent
    obtain ⟨es, hes, hmakes⟩ := Change.exists_update
      (c := (Statement.assign path key v).change o.current) (Entries.assign path key v) .header
      (List.concat_ne_nil key path) (hlead hreach) (fun q _ hq ↦ if_pos hq) rfl fun inner hinner ↦
        Change.exists_assign rfl rfl rfl
          (fun d hd _ ↦ if_neg fun hle ↦ hd (eq_nil_of_append_le hle)) hopen
          (fun d hd hpath r hr ↦ hdotted d hd hpath r (by rwa [hinner d hd] at hr))
          (by rw [hinner _ (List.concat_ne_nil _ _)]; exact hlast)
    exact ⟨⟨es, o.current⟩, by rw [Outline.add, hes]; rfl, rfl, hmakes⟩

end InputRelay.Toml
