import Mathlib.Data.List.Forall2
import YupFront.CommandLine.Run

/-! How preferences are settled. They are made section by section, but what comes of it is settled
key by key: by the document in force, by a variable, or by a default, whatever the other keys are. -/

namespace YupFront

/-- The section that a key belongs to. -/
def Key.section : Key → Section
  | .flag .requireExtension | .flag .logTimings => .loading
  | .flag .countKinds | .flag .logTokens => .lexing
  | .flag .legacyPositions | .flag .traceRules => .parsing
  | .flag .structured | .flag .console | .flag .marksFile | .level => .logging

/-- What there is for a section of what there is for each. -/
def Section.pick (loading lexing parsing logging : α) : Section → α
  | .loading => loading
  | .lexing => lexing
  | .parsing => parsing
  | .logging => logging

theorem Section.mem_keys_iff {s : Section} {k : Key} : k ∈ s.keys ↔ k.section = s := by
  cases s <;> rcases k with f | _ <;> (try cases f) <;> decide

theorem Section.nodup_keys (s : Section) : s.keys.Nodup := by
  cases s <;> decide

namespace Setting

def key : Setting → Key
  | flag f _ => .flag f
  | level _ => .level

end Setting

namespace Preferences

/-- What the preferences say of a key. -/
def setting (p : Preferences) : Key → Setting
  | .flag f => .flag f (p.flag f)
  | .level => .level p.logging.level

variable {p : Preferences} {settings : Overlay} {x : Setting} {k : Key}

theorem key_setting (p : Preferences) (k : Key) : (p.setting k).key = k := by
  cases k <;> rfl

theorem setting_set (p : Preferences) (x : Setting) (k : Key) :
    (p.set x).setting k = if x.key = k then x else p.setting k := by
  cases x with
  | flag f value =>
    cases k with
    | flag g =>
      rw [set, setting, flag_ofValues]
      by_cases h : g = f
      · simp [h, Setting.key]
      · simp [h, Setting.key, setting, Ne.symm h]
    | level => rfl
  | level value =>
    cases k with
    | flag g =>
      rw [set, setting, flag_ofValues]
      rfl
    | level => rfl

theorem setting_foldl_of_ne (h : ∀ x ∈ settings, x.key ≠ k) :
    (settings.foldl set p).setting k = p.setting k := by
  induction settings generalizing p with
  | nil => rfl
  | cons x settings ih =>
    rw [List.foldl_cons, ih fun y hy => h y (List.mem_cons_of_mem _ hy), setting_set,
      if_neg (h x List.mem_cons_self)]

/-- Where a key is set to one value only, that is its value afterwards. -/
theorem setting_foldl_of_mem (hx : x ∈ settings) (h : ∀ y ∈ settings, y.key = x.key → y = x) :
    (settings.foldl set p).setting x.key = x := by
  induction settings generalizing p with
  | nil => simp at hx
  | cons y settings ih =>
    by_cases hmore : x ∈ settings
    · exact ih hmore fun z hz => h z (List.mem_cons_of_mem _ hz)
    · obtain rfl : x = y := (List.mem_cons.mp hx).resolve_right hmore
      have hlast : ∀ z ∈ settings, z.key ≠ x.key := fun z hz he =>
        hmore (h z (List.mem_cons_of_mem _ hz) he ▸ hz)
      rw [List.foldl_cons, setting_foldl_of_ne hlast, setting_set, if_pos rfl]

end Preferences

section Variables

/-- The words for a level. -/
def Level.words : Level → List String
  | error => ["error", "0"]
  | warning => ["warning", "warn", "1"]
  | info => ["info", "2"]
  | debug => ["debug", "3"]

theorem Level.ofText?_eq_some {text : String} {l : Level} : Level.ofText? text = some l ↔
    String.ofList (text.toList.map Char.toLower) ∈ l.words := by
  unfold Level.ofText?
  generalize String.ofList (text.toList.map Char.toLower) = folded
  constructor
  · intro h
    simp only at h
    split at h
    · next hw =>
      cases h
      simpa [words] using hw
    split at h
    · next hw =>
      cases h
      simpa [words] using hw
    split at h
    · next hw =>
      cases h
      simpa [words] using hw
    split at h
    · next hw =>
      cases h
      simpa [words] using hw
    · simp at h
  · intro h
    cases l <;> simp only [words, List.mem_cons, List.not_mem_nil, or_false] at h
    case error => rcases h with rfl | rfl <;> decide
    case warning => rcases h with rfl | rfl | rfl <;> decide
    case info => rcases h with rfl | rfl <;> decide
    case debug => rcases h with rfl | rfl <;> decide

theorem Level.eq_of_mem_words {l m : Level} {text : String} (hl : text ∈ l.words)
    (hm : text ∈ m.words) : l = m := by
  have hdisjoint : ∀ l m : Level, l ≠ m → ∀ word ∈ l.words, word ∉ m.words := by
    intro l m h
    cases l <;> cases m <;> first | exact absurd rfl h | decide
  by_contra h
  exact hdisjoint l m h text hl hm

/-- How a variable may spell a setting: flags by the two words for truth, levels by their words in
any case. -/
def Setting.Spelled (text : String) : Setting → Prop
  | flag _ value => text = if value then "true" else "false"
  | level l => String.ofList (text.toList.map Char.toLower) ∈ l.words

def Key.variableName : Key → String
  | .flag f => f.variableName
  | .level => "YUP_LOGGING_MIN_LEVEL"

def Key.default : Key → Setting
  | .flag f => .flag f f.default
  | .level => .level .info

def Environment.Spells (env : Environment) (x : Setting) : Prop :=
  ∃ text, env.lookup x.key.variableName = some text ∧ x.Spelled text

variable {env : Environment}

theorem Setting.Spelled.unique {x y : Setting} {text : String} (hx : x.Spelled text)
    (hy : y.Spelled text) (h : x.key = y.key) : x = y := by
  cases x with
  | flag f b =>
    cases y with
    | flag g c =>
      obtain rfl := Key.flag.inj h
      have hword : (if b then "true" else "false") = if c then "true" else "false" :=
        hx.symm.trans hy
      cases b <;> cases c <;> first | rfl | exact absurd hword (by decide)
    | level m => simp [Setting.key] at h
  | level l =>
    cases y with
    | flag g c => simp [Setting.key] at h
    | level m => exact congrArg Setting.level (Level.eq_of_mem_words hx hy)

theorem Environment.Spells.unique {x y : Setting} (hx : env.Spells x) (hy : env.Spells y)
    (h : x.key = y.key) : x = y := by
  obtain ⟨text, ht, hx⟩ := hx
  obtain ⟨text', ht', hy⟩ := hy
  obtain rfl := Option.some.inj (ht.symm.trans (h ▸ ht'))
  exact hx.unique hy h

theorem flag?_eq_some {f : Flag} {b : Bool} : env.flag? f = some b ↔ env.Spells (.flag f b) := by
  constructor
  · intro h
    unfold Environment.flag? at h
    split at h
    · next ht =>
      cases h
      exact ⟨"true", ht, rfl⟩
    · next ht =>
      cases h
      exact ⟨"false", ht, rfl⟩
    · simp at h
  · rintro ⟨text, ht, hs⟩
    have hvariable : env.lookup f.variableName = some text := ht
    rw [Environment.flag?, hvariable, show text = if b then "true" else "false" from hs]
    cases b <;> rfl

theorem level?_eq_some {l : Level} : env.level? = some l ↔ env.Spells (.level l) := by
  rw [Environment.level?, Option.bind_eq_some_iff]
  constructor
  · rintro ⟨text, ht, hl⟩
    exact ⟨text, ht, Level.ofText?_eq_some.mp hl⟩
  · rintro ⟨text, ht, hs⟩
    exact ⟨text, ht, Level.ofText?_eq_some.mpr hs⟩

/-- What a setting is without a document. -/
theorem setting_ofEnvironment (env : Environment) (k : Key) :
    env.Spells ((Preferences.ofEnvironment env).setting k) ∨
      (∀ x : Setting, x.key = k → ¬env.Spells x) ∧
        (Preferences.ofEnvironment env).setting k = k.default := by
  cases k with
  | flag f =>
    rw [Preferences.ofEnvironment, Preferences.setting, Preferences.flag_ofValues]
    cases h : env.flag? f with
    | some b => exact .inl (flag?_eq_some.mp h)
    | none =>
      refine .inr ⟨fun x hk hs => ?_, rfl⟩
      cases x with
      | flag g b =>
        obtain rfl := Key.flag.inj hk
        simp [flag?_eq_some.mpr hs] at h
      | level => simp [Setting.key] at hk
  | level =>
    rw [Preferences.ofEnvironment, Preferences.setting, Preferences.ofValues]
    cases h : env.level? with
    | some l => exact .inl (level?_eq_some.mp h)
    | none =>
      refine .inr ⟨fun x hk hs => ?_, rfl⟩
      cases x with
      | flag g b => simp [Setting.key] at hk
      | level l => simp [level?_eq_some.mpr hs] at h

end Variables

section Document

/-- The values of an array, or of tables with one name. -/
def Toml.items? : Toml → Option (List Toml)
  | array items | tables items => some items
  | text _ | integer _ | float _ | bool _ | moment _ | table _ _ => none

/-- Where a section stands, a key is set: by its name in a table, or by its place in an array. -/
inductive Section.Sets (s : Section) : Toml → Key → Toml → Prop where
  | named {form : TableForm} {inner : Toml.Fields} {k : Key} {v : Toml} : k ∈ s.keys →
      inner.lookup k.name = some v → Sets s (.table form inner) k v
  | listed {whole : Toml} {items : List Toml} {i : Nat} {k : Key} {v : Toml} :
      whole.items? = some items → s.keys[i]? = some k → items[i]? = some v → Sets s whole k v

/-- The document sets the key to the value. -/
def Toml.SetsKey (fields : Toml.Fields) (k : Key) (v : Toml) : Prop :=
  ∃ (s : Section) (whole : Toml), fields.lookup s.name = some whole ∧ s.Sets whole k v

/-- How a document may give a setting. A level is given by its name, or by its name as the only key
of a table that holds nothing else. -/
inductive Setting.Given : Setting → Toml → Prop where
  | flag (f : Flag) (b : Bool) : Given (.flag f b) (.bool b)
  | name (l : Level) : Given (.level l) (.text l.key)
  | table (l : Level) (form inner : TableForm) :
      Given (.level l) (.table form [(l.key, .table inner [])])
  | array (l : Level) (form : TableForm) : Given (.level l) (.table form [(l.key, .array [])])

theorem Level.find?_key {name : String} {l : Level} :
    (Level.all.find? fun l => l.key == name) = some l ↔ name = l.key := by
  constructor
  · intro h
    have hl := List.find?_some h
    exact (beq_iff_eq.mp hl).symm
  · rintro rfl
    cases l <;> decide

theorem Level.ofToml?_eq_some {v : Toml} {l : Level} :
    Level.ofToml? v = some l ↔ (Setting.level l).Given v := by
  constructor
  · intro h
    unfold Level.ofToml? at h
    split at h
    · obtain rfl := Level.find?_key.mp h
      exact .name l
    · obtain rfl := Level.find?_key.mp h
      exact .table l _ _
    · obtain rfl := Level.find?_key.mp h
      exact .array l _
    · simp at h
  · intro h
    cases h <;> exact Level.find?_key.mpr rfl

theorem Setting.ofToml?_eq_some {k : Key} {v : Toml} {x : Setting} :
    Setting.ofToml? k v = some x ↔ x.key = k ∧ x.Given v := by
  constructor
  · intro h
    unfold Setting.ofToml? at h
    split at h
    · next f b =>
      cases h
      exact ⟨rfl, .flag f b⟩
    · simp at h
    · obtain ⟨l, hl, rfl⟩ := Option.map_eq_some_iff.mp h
      exact ⟨rfl, Level.ofToml?_eq_some.mp hl⟩
  · rintro ⟨rfl, h⟩
    cases x with
    | flag f b =>
      cases h
      rfl
    | level l =>
      have hl := Level.ofToml?_eq_some.mpr h
      show (Level.ofToml? v).map Setting.level = _
      rw [hl]
      rfl

theorem Setting.Given.unique {x y : Setting} {v : Toml} (hx : x.Given v) (hy : y.Given v)
    (h : x.key = y.key) : x = y := by
  have hx := Setting.ofToml?_eq_some.mpr ⟨h, hx⟩
  have hy := Setting.ofToml?_eq_some.mpr ⟨rfl, hy⟩
  exact Option.some.inj (hx.symm.trans hy)

variable {s : Section} {whole v u : Toml} {k : Key}

theorem Section.Sets.mem_keys (h : s.Sets whole k v) : k ∈ s.keys := by
  cases h with
  | named hk => exact hk
  | listed _ hk => exact List.mem_of_getElem? hk

theorem Section.Sets.unique (hv : s.Sets whole k v) (hu : s.Sets whole k u) : v = u := by
  cases hv with
  | named _ hv =>
    cases hu with
    | named _ hu => exact Option.some.inj (hv.symm.trans hu)
    | listed hw => simp [Toml.items?] at hw
  | @listed _ items i _ _ hw hi hv =>
    cases hu with
    | named => simp [Toml.items?] at hw
    | @listed _ items' j _ _ hw' hj hu =>
      obtain rfl := Option.some.inj (hw.symm.trans hw')
      obtain ⟨hlt, -⟩ := List.getElem?_eq_some_iff.mp hi
      obtain rfl := (List.getElem?_inj hlt s.nodup_keys).mp (hi.trans hj.symm)
      exact Option.some.inj (hv.symm.trans hu)

theorem Toml.SetsKey.exists_whole {fields : Toml.Fields} (h : Toml.SetsKey fields k v) :
    ∃ whole, fields.lookup k.section.name = some whole ∧ k.section.Sets whole k v := by
  obtain ⟨s, whole, hw, hset⟩ := h
  obtain rfl : k.section = s := Section.mem_keys_iff.mp hset.mem_keys
  exact ⟨whole, hw, hset⟩

theorem Toml.SetsKey.unique {fields : Toml.Fields} (hv : Toml.SetsKey fields k v)
    (hu : Toml.SetsKey fields k u) : v = u := by
  obtain ⟨whole, hw, hv⟩ := hv.exists_whole
  obtain ⟨whole', hw', hu⟩ := hu.exists_whole
  obtain rfl := Option.some.inj (hw.symm.trans hw')
  exact hv.unique hu

theorem mem_of_mapM_eq_some {f : α → Option β} {as : List α} {bs : List β}
    (h : as.mapM f = some bs) :
    (∀ b ∈ bs, ∃ a ∈ as, f a = some b) ∧ ∀ a ∈ as, ∃ b ∈ bs, f a = some b := by
  induction as generalizing bs with
  | nil =>
    obtain rfl : [] = bs := by simpa using h
    simp
  | cons a as ih =>
    rw [List.mapM_cons] at h
    simp only [Option.bind_eq_bind, Option.bind_eq_some_iff, Option.pure_def,
      Option.some.injEq] at h
    obtain ⟨b, hb, bs, hbs, rfl⟩ := h
    obtain ⟨hright, hleft⟩ := ih hbs
    constructor
    · intro c hc
      rcases List.mem_cons.mp hc with rfl | hc
      · exact ⟨a, List.mem_cons_self, hb⟩
      · obtain ⟨d, hd, hf⟩ := hright c hc
        exact ⟨d, List.mem_cons_of_mem _ hd, hf⟩
    · intro d hd
      rcases List.mem_cons.mp hd with rfl | hd
      · exact ⟨b, List.mem_cons_self, hb⟩
      · obtain ⟨c, hc, hf⟩ := hleft d hd
        exact ⟨c, List.mem_cons_of_mem _ hc, hf⟩

/-- What is read of a section: a setting for each key that is set. -/
structure Section.Reads (s : Section) (whole : Toml) (settings : Overlay) : Prop where
  given : ∀ x ∈ settings, ∃ v, s.Sets whole x.key v ∧ x.Given v
  complete : ∀ k v, s.Sets whole k v → ∃ x ∈ settings, x.key = k

theorem Section.Reads.unique {settings : Overlay} {x y : Setting} (h : s.Reads whole settings)
    (hx : x ∈ settings) (hy : y ∈ settings) (hk : y.key = x.key) : y = x := by
  obtain ⟨v, hv, hxv⟩ := h.given x hx
  obtain ⟨u, hu, hyu⟩ := h.given y hy
  obtain rfl := hv.unique (hk ▸ hu)
  exact hyu.unique hxv hk

theorem reads_of_items {items : List Toml} {settings : Overlay} (hw : whole.items? = some items)
    (h : ((s.keys.zip items).mapM fun p => Setting.ofToml? p.1 p.2) = some settings) :
    s.Reads whole settings := by
  obtain ⟨hgiven, hcomplete⟩ := mem_of_mapM_eq_some h
  constructor
  · intro x hx
    obtain ⟨⟨k, v⟩, hp, hread⟩ := hgiven x hx
    obtain ⟨rfl, hxv⟩ := Setting.ofToml?_eq_some.mp hread
    obtain ⟨i, hi⟩ := List.mem_iff_getElem?.mp hp
    obtain ⟨hk, hv⟩ := List.getElem?_zip_eq_some.mp hi
    exact ⟨v, .listed hw hk hv, hxv⟩
  · intro k v hset
    cases hset with
    | named => simp [Toml.items?] at hw
    | listed hw' hk hv =>
      obtain rfl := Option.some.inj (hw.symm.trans hw')
      have hp : (k, v) ∈ s.keys.zip items :=
        List.mem_iff_getElem?.mpr ⟨_, List.getElem?_zip_eq_some.mpr ⟨hk, hv⟩⟩
      obtain ⟨x, hx, hread⟩ := hcomplete (k, v) hp
      exact ⟨x, hx, (Setting.ofToml?_eq_some.mp hread).1⟩

theorem reads_of_fields {form : TableForm} {inner : Toml.Fields} {settings : Overlay}
    (h : s.ofToml? (.table form inner) = some settings) : s.Reads (.table form inner) settings := by
  simp only [Section.ofToml?, Option.bind_eq_bind, Option.bind_eq_some_iff, Option.pure_def,
    Option.some.injEq] at h
  obtain ⟨found, hfound, rfl⟩ := h
  obtain ⟨hgiven, hcomplete⟩ := mem_of_mapM_eq_some hfound
  constructor
  · intro x hx
    obtain ⟨o, ho, rfl⟩ := List.mem_filterMap.mp hx
    obtain ⟨k, hk, hread⟩ := hgiven _ ho
    split at hread
    · next v hv =>
      obtain ⟨y, hy, hxy⟩ := Option.map_eq_some_iff.mp hread
      obtain rfl : y = x := Option.some.inj hxy
      obtain ⟨rfl, hgiven⟩ := Setting.ofToml?_eq_some.mp hy
      exact ⟨v, .named hk hv, hgiven⟩
    · simp at hread
  · intro k v hset
    cases hset with
    | listed hw => simp [Toml.items?] at hw
    | named hk hv =>
      obtain ⟨o, ho, hread⟩ := hcomplete k hk
      rw [hv] at hread
      obtain ⟨x, hx, rfl⟩ := Option.map_eq_some_iff.mp hread
      exact ⟨x, List.mem_filterMap.mpr ⟨_, ho, rfl⟩, (Setting.ofToml?_eq_some.mp hx).1⟩

theorem reads_ofToml? {settings : Overlay} (h : s.ofToml? whole = some settings) :
    s.Reads whole settings := by
  cases whole with
  | table form inner => exact reads_of_fields h
  | array items => exact reads_of_items rfl h
  | tables items => exact reads_of_items rfl h
  | moment spelling =>
    obtain rfl := Option.some.inj h
    exact ⟨by simp, fun k v hset => by cases hset with | listed hw => simp [Toml.items?] at hw⟩
  | text | integer | float | bool => simp [Section.ofToml?] at h

end Document

/-- What a key is settled to: the value that the document gives for it; else the value that its
variable spells; else its default. -/
inductive Settled (env : Environment) (fields : Toml.Fields) : Setting → Prop where
  | document {x : Setting} {v : Toml} : Toml.SetsKey fields x.key v → x.Given v →
      Settled env fields x
  | environment {x : Setting} : (∀ v, ¬Toml.SetsKey fields x.key v) → env.Spells x →
      Settled env fields x
  | default {k : Key} : (∀ v, ¬Toml.SetsKey fields k v) →
      (∀ x : Setting, x.key = k → ¬env.Spells x) → Settled env fields k.default

theorem Key.key_default (k : Key) : k.default.key = k := by
  cases k <;> rfl

section Settled

variable {env : Environment} {fields : Toml.Fields} {p : Preferences}

theorem Settled.unique {x y : Setting} (hx : Settled env fields x) (hy : Settled env fields y)
    (h : x.key = y.key) : x = y := by
  cases hx with
  | @document _ v hset hgiven =>
    cases hy with
    | document hset' hgiven' =>
      obtain rfl := hset.unique (h ▸ hset')
      exact hgiven.unique hgiven' h
    | environment hno => exact absurd (h ▸ hset) (hno v)
    | default hno =>
      rw [Key.key_default] at h
      exact absurd (h ▸ hset) (hno v)
  | environment hno hs =>
    cases hy with
    | @document _ v hset => exact absurd (h ▸ hset) (hno v)
    | environment _ hs' => exact hs.unique hs' h
    | default _ hnone => exact absurd hs (hnone x (h.trans (Key.key_default _)))
  | @default k hno hnone =>
    rw [Key.key_default] at h
    cases hy with
    | @document _ v hset => exact absurd (h ▸ hset) (hno v)
    | environment _ hs => exact absurd hs (hnone y h.symm)
    | default => rw [h, Key.key_default]

/-- Without a value in the document, a key is settled by the environment. -/
theorem settled_ofEnvironment {k : Key} (hno : ∀ v, ¬Toml.SetsKey fields k v) :
    Settled env fields ((Preferences.ofEnvironment env).setting k) := by
  rcases setting_ofEnvironment env k with hs | ⟨hnone, hk⟩
  · refine .environment ?_ hs
    rwa [Preferences.key_setting]
  · rw [hk]
    exact .default hno hnone

theorem settled_foldl {k : Key} {whole : Toml} {settings : Overlay}
    (hw : fields.lookup k.section.name = some whole) (h : k.section.Reads whole settings) :
    Settled env fields
      ((settings.foldl Preferences.set (Preferences.ofEnvironment env)).setting k) := by
  by_cases hset : ∃ v, Toml.SetsKey fields k v
  · obtain ⟨v, hset⟩ := hset
    obtain ⟨whole', hw', hs⟩ := hset.exists_whole
    obtain rfl := Option.some.inj (hw.symm.trans hw')
    obtain ⟨x, hx, rfl⟩ := h.complete k v hs
    obtain ⟨u, hu, hxu⟩ := h.given x hx
    rw [Preferences.setting_foldl_of_mem hx fun y hy hk => h.unique hx hy hk]
    exact .document ⟨_, whole, hw, hu⟩ hxu
  · have hno : ∀ x ∈ settings, x.key ≠ k := by
      rintro x hx rfl
      obtain ⟨v, hv, -⟩ := h.given x hx
      exact hset ⟨v, _, whole, hw, hv⟩
    rw [Preferences.setting_foldl_of_ne hno]
    exact settled_ofEnvironment fun v hv => hset ⟨v, hv⟩

theorem settled_ofSection? {k : Key}
    (h : Preferences.ofSection? env k.section.ofToml? (fields.lookup k.section.name) = some p) :
    Settled env fields (p.setting k) := by
  cases hw : fields.lookup k.section.name with
  | none =>
    rw [hw] at h
    obtain rfl := Option.some.inj h
    refine settled_ofEnvironment fun v hset => ?_
    obtain ⟨whole, hw', -⟩ := hset.exists_whole
    simp [hw] at hw'
  | some whole =>
    rw [hw] at h
    obtain ⟨settings, hread, rfl⟩ := Option.map_eq_some_iff.mp h
    exact settled_foldl hw (reads_ofToml? hread)

theorem setting_parts (part : Section → Preferences) (k : Key) :
    (⟨(part .loading).loading, (part .lexing).lexing, (part .parsing).parsing,
      (part .logging).logging⟩ : Preferences).setting k = (part k.section).setting k := by
  rcases k with f | _
  · cases f <;> rfl
  · rfl

theorem settled_ofSections?
    (h : Preferences.ofSections? env Section.ofToml? (fun s => fields.lookup s.name) = some p)
    (k : Key) : Settled env fields (p.setting k) := by
  simp only [Preferences.ofSections?, Option.bind_eq_bind, Option.bind_eq_some_iff, Option.pure_def,
    Option.some.injEq] at h
  obtain ⟨loading, hloading, lexing, hlexing, parsing, hparsing, logging, hlogging, rfl⟩ := h
  let part := Section.pick loading lexing parsing logging
  have hpart (s : Section) :
      Preferences.ofSection? env s.ofToml? (fields.lookup s.name) = some (part s) := by
    cases s
    case loading => exact hloading
    case lexing => exact hlexing
    case parsing => exact hparsing
    case logging => exact hlogging
  -- What is read for the other sections does not reach the key.
  have hk := settled_ofSection? (hpart k.section)
  rwa [← setting_parts part k] at hk

end Settled

section CommandLine

/-- What the arguments set. -/
def Arguments.setting? (a : Arguments) : Key → Option Setting
  | .flag .legacyPositions =>
    if a.has .sourcePositions then some (.flag .legacyPositions false) else .none
  | .flag .console => a.level.map fun _ => .flag .console true
  | .flag _ => .none
  | .level => a.level.map .level

theorem setting_override (a : Arguments) (p : Preferences) (k : Key) :
    (CommandLine.override a p).setting k = (a.setting? k).getD (p.setting k) := by
  unfold CommandLine.override Arguments.setting?
  cases a.has .sourcePositions <;> cases a.level <;> rcases k with f | _ <;> (try cases f) <;> rfl

/-- Without a document there is nothing that it sets, and with one there are the fields of it. -/
theorem exists_ofSections? {w : World} {a : Arguments} {p : Preferences}
    (h : CommandLine.preferences w a = .ok p) :
    ∃ fields q, (a.config = none → fields = []) ∧
      (∀ path, a.config = some path →
        ∃ text, w.files.readText path = .ok text ∧ Toml.read? text = some fields) ∧
      Preferences.ofSections? w.environment Section.ofToml? (fun s => fields.lookup s.name) =
        some q ∧ p = CommandLine.override a q := by
  unfold CommandLine.preferences at h
  cases hc : a.config with
  | none =>
    rw [hc] at h
    obtain rfl := Except.ok.inj h
    exact ⟨[], _, fun _ => rfl, nofun, rfl, rfl⟩
  | some path =>
    rw [hc] at h
    simp only [Preferences.load] at h
    cases ht : w.files.readText path with
    | error e => simp [ht] at h
    | ok text =>
      cases hq : Preferences.ofToml? w.environment text with
      | none => simp [ht, hq] at h
      | some q =>
        obtain rfl : CommandLine.override a q = p := by simpa [ht, hq] using h
        obtain ⟨fields, hread, hsections⟩ := Option.bind_eq_some_iff.mp hq
        refine ⟨fields, q, nofun, fun path' hpath => ?_, hsections, rfl⟩
        obtain rfl := Option.some.inj hpath
        exact ⟨text, ht, hread⟩

/-- Without a document there always are preferences. Each of the ten keys is settled on its own, by the
document in force if there is one, by its variable or by its default; then the arguments put their
settings in the place of these. -/
theorem preferences_resolve_by_key (w : World) (a : Arguments) :
    (a.config = none → ∃ p, CommandLine.preferences w a = .ok p) ∧
    ∀ p, CommandLine.preferences w a = .ok p →
      ∃ (fields : Toml.Fields) (q : Preferences),
        (a.config = none → fields = []) ∧
        (∀ path, a.config = some path →
          ∃ text, w.files.readText path = .ok text ∧ Toml.read? text = some fields) ∧
        (∀ x : Setting, q.setting x.key = x ↔ Settled w.environment fields x) ∧
        ∀ k, p.setting k = (a.setting? k).getD (q.setting k) := by
  refine ⟨fun hnone => ?_, fun p h => ?_⟩
  · rw [CommandLine.preferences, hnone]
    exact ⟨_, rfl⟩
  · obtain ⟨fields, q, hnone, hsome, hsections, rfl⟩ := exists_ofSections? h
    refine ⟨fields, q, hnone, hsome, fun x => ⟨fun hx => ?_, fun hx => ?_⟩, setting_override a q⟩
    · rw [← hx]
      exact settled_ofSections? hsections x.key
    · exact (settled_ofSections? hsections x.key).unique hx (q.key_setting x.key)

/-- A document with parts of two sections and a key that is unknown, a variable that is malformed
and one that is not, and a level among the arguments; and the same without the document. -/
theorem partial_document_resolves :
    let text := "[syntax]\nlegacy_positions = false\nother = 1\n" ++
      "[logging]\nmin_log_level = \"debug\"\n"
    let env : Environment :=
      [("YUP_SYNTAX_TRACE_RULES", "yes"), ("YUP_LOGGING_INCLUDE_FILE_CONTEXT", "false")]
    let w : World := ⟨env, ⟨[""], [(["", "a"], .file text.toByteArray)]⟩, .empty, 0, 0⟩
    let a : Arguments := ⟨none, [.stdin], some .error, some "a"⟩
    let p : Preferences :=
      ⟨⟨false, true⟩, ⟨true, false⟩, ⟨false, false⟩, ⟨false, true, .error, false⟩⟩
    CommandLine.preferences w a = .ok p ∧
      (∃ (fields : Toml.Fields) (q : Preferences),
        (a.config = none → fields = []) ∧
        (∀ path, a.config = some path →
          ∃ text, w.files.readText path = .ok text ∧ Toml.read? text = some fields) ∧
        (∀ x : Setting, q.setting x.key = x ↔ Settled w.environment fields x) ∧
        ∀ k, p.setting k = (a.setting? k).getD (q.setting k)) ∧
      ∃ p, CommandLine.preferences w { a with config := none } = .ok p := by
  intro text env w a p
  have hresolve : w.files.resolve "a" = .ok (["", "a"], .file text.toByteArray) :=
    FileSystem.isName_a.resolve rfl
  have hutf8 : String.fromUTF8? text.toByteArray = some text := by decide +kernel
  have htext : w.files.readText "a" = .ok text := by
    simp only [FileSystem.readText, FileSystem.readBytes, hresolve, textOf, hutf8]
  have hread : Preferences.ofToml? env text =
      some ⟨⟨false, true⟩, ⟨true, false⟩, ⟨false, false⟩, ⟨false, false, .debug, false⟩⟩ := by
    decide +kernel
  have hp : CommandLine.preferences w a = .ok p := by
    simp only [CommandLine.preferences, a, Preferences.load, htext, w, hread]
    rfl
  exact ⟨hp, (preferences_resolve_by_key w a).2 p hp,
    (preferences_resolve_by_key w { a with config := none }).1 rfl⟩

end CommandLine

end YupFront
