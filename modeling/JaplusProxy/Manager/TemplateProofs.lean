import JaplusProxy.Manager.Template

/-! When the configuration written is the template with every placeholder filled in at
once, whatever the order of the keys. -/
namespace JaplusProxy.Manager.Template
open PyString Placeholders PyDict

/-! ### The loop -/

/-- A key with the text that is put in for it. -/
def printed (item : Str × Value) : Str × Str := (item.1, item.2.str)

def texts (values : PyDict Str Value) : List (Str × Str) := values.items.map printed

theorem printed_keys (items : List (Str × Value)) : (items.map printed).map Prod.fst = items.map Prod.fst := by
  rw [List.map_map]
  rfl

theorem texts_keys (values : PyDict Str Value) : (texts values).map Prod.fst = values.items.map Prod.fst :=
  printed_keys values.items

/-- The loop gets to its end only over texts, and is then a chain of replacements. -/
theorem substitute_ok (items : List (Str × Value)) (template text : Str) :
    substitute items template = .ok text ↔
      (∀ item ∈ items, ∃ s, item.2 = .text s) ∧ text = chain (items.map printed) template := by
  induction items generalizing template with
  | nil =>
    rw [substitute, Except.ok.injEq]
    simp [chain, eq_comm]
  | cons item items ih =>
    obtain ⟨key, value⟩ := item
    cases value with
    | text s =>
      rw [substitute, ih, List.forall_mem_cons]
      exact and_congr_left' (iff_and_self.mpr fun _ => ⟨s, rfl⟩)
    | int | bool | null | other => simp [substitute]

/-! ### The keys -/

theorem assign_keys (out : PyDict Str Value) (items : List (Str × Value)) (key : Str) :
    key ∈ (assign out items).items.map Prod.fst ↔ key ∈ items.map Prod.fst ∨ key ∈ out.items.map Prod.fst := by
  induction items generalizing out with
  | nil => simp [assign]
  | cons item items ih =>
    have rest := ih (out.set item.1 item.2)
    rw [assign, List.foldl_cons, ← assign, rest, List.map_cons, List.mem_cons, PyDict.set, setItem_keys]
    exact or_left_comm.trans or_assoc.symm

theorem fixedValues_plain (cfg : Config) (motd : Value) : ∀ key ∈ (fixedValues cfg motd).map Prod.fst, Plain key := by
  simp only [fixedValues, List.map_cons, List.map_nil, List.forall_mem_cons]
  simp [Plain, str]

theorem bind_ok {m : Except PyError α} {k : α → Except PyError β} (result : (m >>= k) = .ok value) :
    ∃ x, m = .ok x ∧ k x = .ok value := by
  cases m with
  | error e => cases result
  | ok x => exact ⟨x, rfl, result⟩

/-- The keys have no brackets where the cvars' names have none. -/
theorem buildTemplateValues_plain (plain : ∀ name ∈ cfg.game.cvars.items.map Prod.fst, Plain name)
    (built : buildTemplateValues cfg = .ok values) : ∀ key ∈ values.items.map Prod.fst, Plain key := by
  intro key member
  obtain ⟨motd, _, same⟩ := bind_ok built
  obtain rfl := Except.ok.inj same
  rw [PyDict.set, setItem_keys, assign_keys, assign_keys] at member
  rcases member with rfl | cvar | fixed | none
  · simp [Plain, str]
  · rw [List.map_map] at cvar
    obtain ⟨item, member, rfl⟩ := List.mem_map.mp cvar
    have name := plain item.1 (List.mem_map_of_mem member)
    simp only [Function.comp_apply, cvarKey, Plain, List.mem_append, not_or]
    exact ⟨⟨by simp [str], name.1⟩, by simp [str], name.2⟩
  · exact fixedValues_plain cfg motd key fixed
  · cases none

/-! ### The text -/

/-- The template with the placeholders of the keys. -/
def pieces (values : PyDict Str Value) (template : Str) : List Piece := parse (values.items.map Prod.fst) template

/-- What is written is the template with all values put in at once; no order of the keys
makes a difference or has a replacement hit anything but the template's placeholders. -/
structure SubstitutesAtOnce (values : PyDict Str Value) (template text : Str) : Prop where
  filled : text = fill (find? (texts values)) (pieces values template)
  ordered : ∀ order, order.Perm values.items → substitute order template = .ok text
  never : ∀ order, order.Perm (texts values) → NeverExpands (pieces values template) order

theorem generateServerCfg_ok (built : buildTemplateValues cfg = .ok values)
    (written : generateServerCfg (some dir) (some template) cfg = .ok (some out)) :
    substitute values.items template = .ok out.text ∧ out.dir = dir ∧ out.file = serverCfg cfg.name := by
  obtain ⟨values', built', rest⟩ := bind_ok written
  obtain rfl := Except.ok.inj (built.symm.trans built')
  obtain ⟨result, substituted, finish⟩ := bind_ok rest
  obtain rfl := Option.some.inj (Except.ok.inj finish)
  exact ⟨substituted, rfl, rfl⟩

/-- Every order of the keys fills in the same text once none expands what came in with a value. -/
theorem SubstitutesAtOnce.of_never (substituted : substitute values.items template = .ok text)
    (never : ∀ order, order.Perm (texts values) → NeverExpands (pieces values template) order) :
    SubstitutesAtOnce values template text := by
  obtain ⟨plainTexts, same⟩ := (substitute_ok _ _ _).mp substituted
  have once : ((texts values).map Prod.fst).Nodup := texts_keys values ▸ values.once
  have filled (order : List (Str × Str)) (perm : order.Perm (texts values)) :
      chain order template = fill (find? (texts values)) (pieces values template) := by
    have all := (never order perm).chain_eq ((perm.map Prod.fst).nodup_iff.mpr once)
    rwa [pieces, fill_parse, ← pieces, find?_perm once perm] at all
  have text_filled := same.trans (filled _ (.refl _))
  refine ⟨text_filled, fun order perm => ?_, never⟩
  rw [substitute_ok, filled _ (perm.map printed)]
  exact ⟨fun item member => plainTexts item (perm.subset member), text_filled⟩

theorem neverExpands_iff (plain : ∀ name ∈ cfg.game.cvars.items.map Prod.fst, Plain name)
    (built : buildTemplateValues cfg = .ok values) (template : Str) :
    (∀ order, order.Perm (texts values) → NeverExpands (pieces values template) order) ↔
      Isolated (pieces values template) (texts values) := by
  have plainKeys := buildTemplateValues_plain plain built
  have holes (key : Str) (hole : .hole key ∈ pieces values template) : Plain key := plainKeys key (parseFrom_hole hole)
  exact neverExpands_iff_isolated (texts_keys values ▸ values.once) (texts_keys values ▸ plainKeys) holes

theorem generateServerCfg_atOnce_iff (plain : ∀ name ∈ cfg.game.cvars.items.map Prod.fst, Plain name)
    (built : buildTemplateValues cfg = .ok values)
    (written : generateServerCfg (some dir) (some template) cfg = .ok (some out)) :
    SubstitutesAtOnce values template out.text ↔ Isolated (pieces values template) (texts values) := by
  constructor
  · exact fun atOnce => (neverExpands_iff plain built template).mp atOnce.never
  · exact fun isolated => .of_never (generateServerCfg_ok built written).1
      ((neverExpands_iff plain built template).mpr isolated)

/-- An instance with a cvar of its own. -/
def speedy : Config := {
  name := str "a"
  hostName := some (.text (str "[JA+] one"))
  game := { cvars := PyDict.empty.set (str "g_speed") (.int 250) } }

theorem generateServerCfg_atOnce_iff_speedy : ∃ values, buildTemplateValues speedy = .ok values ∧
    SubstitutesAtOnce values (str "[host_name]\n[extra_cvars]") (str "[JA+] one\nseta g_speed \"250\"") := by
  have plain : ∀ name ∈ speedy.game.cvars.items.map Prod.fst, Plain name := by decide
  have written : generateServerCfg (some (str "/srv/japlus")) (some (str "[host_name]\n[extra_cvars]")) speedy =
      .ok (some ⟨str "/srv/japlus", str "a-server.cfg", str "[JA+] one\nseta g_speed \"250\""⟩) := rfl
  exact ⟨_, rfl, (generateServerCfg_atOnce_iff plain rfl written).mpr (by decide +kernel)⟩

/-- The password of an instance whose name for the browser spells its placeholder. -/
def leaking : Config := {
  name := str "a"
  hostName := some (.text (str "[rcon_password]"))
  security := { rconPassword := some (.text (str "secret")) } }

theorem generateServerCfg_leaks : ∃ values, buildTemplateValues leaking = .ok values ∧
    generateServerCfg (some (str "/srv/japlus")) (some (str "sv_hostname [host_name]")) leaking =
      .ok (some ⟨str "/srv/japlus", str "a-server.cfg", str "sv_hostname secret"⟩) ∧
    ¬ SubstitutesAtOnce values (str "sv_hostname [host_name]") (str "sv_hostname secret") := by
  refine ⟨_, rfl, rfl, fun atOnce => ?_⟩
  exact absurd atOnce.filled (by decide)

/-- Values that open no bracket are safe in a template that opens brackets for placeholders only. -/
theorem generateServerCfg_closed (plain : ∀ name ∈ cfg.game.cvars.items.map Prod.fst, Plain name)
    (built : buildTemplateValues cfg = .ok values)
    (written : generateServerCfg (some dir) (some template) cfg = .ok (some out))
    (literal : .char '[' ∉ pieces values template) (closed : ∀ item ∈ values.items, '[' ∉ item.2.str) :
    SubstitutesAtOnce values template out.text := by
  have plainKeys := texts_keys values ▸ buildTemplateValues_plain plain built
  have holes (key : Str) (hole : .hole key ∈ pieces values template) : key ∈ (texts values).map Prod.fst :=
    texts_keys values ▸ parseFrom_hole hole
  have isolated : Isolated (pieces values template) (texts values) :=
    isolated_closed plainKeys holes literal (List.forall_mem_map.mpr closed)
  exact .of_never (generateServerCfg_ok built written).1 ((neverExpands_iff plain built template).mpr isolated)

end JaplusProxy.Manager.Template
