/-
Configuration: for every command line and every environment, which configuration they give, or which
problem they have. A flag counts where it first occurs, and what stands there is its value; what the
environment says under the setting's name counts only if the flag does not occur. The checks are made in
a fixed order, and the first one that fails is reported.
-/
import AccessRecords.Config
import AccessRecords.Proofs.Except
import AccessRecords.Proofs.Text.Numeral

namespace AccessRecords.Config

variable {args : List String} {env : Table String String} {flag arg value : String} {s : Setting} {p : Problem}

/-! ## Arguments -/

/-- The value stands right after the first occurrence of the flag. -/
def Follows (args : List String) (flag value : String) : Prop :=
  ∃ before after, args = before ++ flag :: value :: after ∧ flag ∉ before

/-- If the flag occurs, then an argument that does not begin with two dashes follows its first occurrence. -/
def HasValue (args : List String) (flag : String) : Prop :=
  flag ∈ args → ∃ value, Follows args flag value ∧ ¬ ['-', '-'] <+: value.toList

theorem looksLikeFlag_iff : looksLikeFlag value = true ↔ ['-', '-'] <+: value.toList := List.isPrefixOf_iff_prefix

theorem follows_cons_self {rest : List String} : Follows (flag :: rest) flag value ↔ rest.head? = some value := by
  constructor
  · rintro ⟨before, after, h, hb⟩
    cases before with
    | nil =>
      cases h
      rfl
    | cons b before =>
      cases h
      exact absurd List.mem_cons_self hb
  · intro h
    obtain ⟨after, rfl⟩ := List.head?_eq_some_iff.1 h
    exact ⟨[], after, rfl, by simp⟩

theorem follows_cons_of_ne {rest : List String} (h : arg ≠ flag) :
    Follows (arg :: rest) flag value ↔ Follows rest flag value := by
  constructor
  · rintro ⟨before, after, hl, hb⟩
    cases before with
    | nil =>
      cases hl
      exact absurd rfl h
    | cons b before =>
      cases hl
      exact ⟨before, after, rfl, fun hm => hb (List.mem_cons_of_mem _ hm)⟩
  · rintro ⟨before, after, rfl, hb⟩
    refine ⟨arg :: before, after, rfl, fun hm => ?_⟩
    rcases List.mem_cons.1 hm with rfl | hm
    · exact h rfl
    · exact hb hm

theorem Follows.mem (h : Follows args flag value) : flag ∈ args := by
  obtain ⟨before, after, rfl, -⟩ := h
  simp

theorem Follows.unique {value' : String} (h : Follows args flag value) (h' : Follows args flag value') :
    value = value' := by
  induction args with
  | nil => cases h.mem
  | cons arg rest ih =>
    by_cases ha : arg = flag
    · subst ha
      rw [follows_cons_self] at h h'
      exact Option.some.inj (h.symm.trans h')
    · rw [follows_cons_of_ne ha] at h h'
      exact ih h h'

theorem argument?_cons_self {rest : List String} {found : Option String} :
    argument? flag (flag :: rest) = .ok found ↔
      ∃ value, rest.head? = some value ∧ looksLikeFlag value = false ∧ found = some value := by
  cases rest with
  | nil => simp [argument?]
  | cons next rest =>
    cases hv : looksLikeFlag next with
    | true => simp [argument?, hv]
    | false =>
      simp only [argument?, hv, List.head?_cons, Option.some.injEq]
      simp [hv, eq_comm]

theorem argument?_cons_of_ne {rest : List String} (h : arg ≠ flag) :
    argument? flag (arg :: rest) = argument? flag rest := by
  simp [argument?, h]

theorem argument?_eq_none : argument? flag args = .ok none ↔ flag ∉ args := by
  induction args with
  | nil => simp [argument?]
  | cons arg rest ih =>
    by_cases h : arg = flag
    · subst h
      simp [argument?_cons_self]
    · simp [argument?_cons_of_ne h, ih, Ne.symm h]

theorem argument?_eq_some :
    argument? flag args = .ok (some value) ↔ Follows args flag value ∧ ¬ ['-', '-'] <+: value.toList := by
  induction args with
  | nil => simp [argument?, Follows]
  | cons arg rest ih =>
    by_cases h : arg = flag
    · subst h
      simp [argument?_cons_self, follows_cons_self, ← looksLikeFlag_iff]
    · rw [argument?_cons_of_ne h, follows_cons_of_ne h, ih]

theorem problem_of_argument? (h : argument? flag args = .error p) : p = .missingValue flag := by
  induction args with
  | nil => simp [argument?] at h
  | cons arg rest ih =>
    by_cases ha : arg = flag
    · subst ha
      cases rest with
      | nil => simpa [argument?, eq_comm] using h
      | cons next rest => cases hv : looksLikeFlag next <;> simp_all [argument?]
    · exact ih (by rwa [argument?_cons_of_ne ha] at h)

theorem argument?_eq_error : argument? flag args = .error p ↔ p = .missingValue flag ∧ ¬ HasValue args flag := by
  cases h : argument? flag args with
  | error q =>
    obtain rfl := problem_of_argument? h
    have hv : ¬ HasValue args flag := by
      intro hv
      by_cases hm : flag ∈ args
      · obtain ⟨value, hvalue⟩ := hv hm
        rw [argument?_eq_some.2 hvalue] at h
        cases h
      · rw [argument?_eq_none.2 hm] at h
        cases h
    simp [hv, eq_comm]
  | ok found =>
    have hv : HasValue args flag := by
      intro hm
      cases found with
      | none => exact absurd hm (argument?_eq_none.1 h)
      | some value => exact ⟨value, argument?_eq_some.1 h⟩
    simp [hv]

/-! ## Settings -/

/-- The settings that a command line can give. -/
def settings : List Setting := [httpPortSetting, bindSetting, namespaceSetting, seedSetting]

/-- The text chosen for a setting and where it was found: the argument after the first occurrence of its flag,
else what the environment has under its name, else nothing. -/
inductive Chosen (args : List String) (env : Table String String) (s : Setting) : Option (String × String) → Prop
  | argument {value : String} : Follows args s.flag value → Chosen args env s (some (s.flag, value))
  | environment {value : String} : s.flag ∉ args → env.get? s.variableName = some value →
      Chosen args env s (some (s.variableName, value))
  | absent : s.flag ∉ args → env.get? s.variableName = none → Chosen args env s none

/-- The text is the one chosen for the setting, or the default if there is none. -/
def Selects (args : List String) (env : Table String String) (s : Setting) (default text : String) : Prop :=
  ∃ found, Chosen args env s found ∧ text = (found.map (·.2)).getD default

/-- The flag of the setting occurs and has no value. -/
def Lacks (args : List String) (s : Setting) (p : Problem) : Prop :=
  ¬ HasValue args s.flag ∧ p = .missingValue s.flag

theorem lookUp_eq_error : lookUp args env s = .error p ↔ Lacks args s p := by
  rw [lookUp, Except.bind_eq_error, argument?_eq_error, and_comm]
  refine or_iff_left ?_
  rintro ⟨found, -, h⟩
  cases found <;> cases h

theorem chosen_of_lookUp {found : Option (String × String)} (h : lookUp args env s = .ok found) :
    Chosen args env s found := by
  obtain ⟨value, hv, h⟩ := Except.bind_eq_ok.1 h
  cases value with
  | some value =>
    cases h
    exact .argument (argument?_eq_some.1 hv).1
  | none =>
    cases h
    have hf := argument?_eq_none.1 hv
    cases he : env.get? s.variableName with
    | none => exact .absent hf he
    | some value => exact .environment hf he

/-- The environment is not looked at when the flag occurs. -/
theorem lookUp_congr {env' : Table String String}
    (h : s.flag ∉ args → env'.get? s.variableName = env.get? s.variableName) :
    lookUp args env' s = lookUp args env s := by
  unfold lookUp
  cases hv : argument? s.flag args with
  | error q => rfl
  | ok found =>
    cases found with
    | some value => rfl
    | none =>
      show Except.ok _ = Except.ok _
      rw [h (argument?_eq_none.1 hv)]

theorem Chosen.unique {found found' : Option (String × String)} (h : Chosen args env s found)
    (h' : Chosen args env s found') : found = found' := by
  cases h with
  | argument hf =>
    cases h' with
    | argument hf' => rw [hf.unique hf']
    | environment hn _ => exact absurd hf.mem hn
    | absent hn _ => exact absurd hf.mem hn
  | environment hn he =>
    cases h' with
    | argument hf' => exact absurd hf'.mem hn
    | environment _ he' => rw [Option.some.inj (he.symm.trans he')]
    | absent _ he' => cases he.symm.trans he'
  | absent hn he =>
    cases h' with
    | argument hf' => exact absurd hf'.mem hn
    | environment _ he' => cases he.symm.trans he'
    | absent _ _ => rfl

/-! ## What the chosen texts say -/

/-- The text writes a port: without the blanks around it, it is a numeral with no minus sign for a number of
16 bits. -/
def WritesPort (value : String) (n : Nat) : Prop :=
  ∃ t, Text.Trims value t ∧ Text.Unsigned t.toList n ∧ n ≤ 65535

theorem readUInt16?_trim {n : Nat} : Text.readUInt16? (Text.trim value) = some n ↔ WritesPort value n := by
  rw [Text.readUInt16?_eq_some]
  constructor
  · exact fun h => ⟨Text.trim value, Text.trims_iff.2 rfl, h⟩
  · rintro ⟨t, ht, h⟩
    rwa [Text.trims_iff.1 ht]

theorem readPort_eq_ok {source : String} {n : Nat} : readPort source value = .ok n ↔ WritesPort value n := by
  rw [← readUInt16?_trim]
  unfold readPort
  cases Text.readUInt16? (Text.trim value) <;> simp

theorem readPort_eq_error {source : String} :
    readPort source value = .error p ↔ (∀ n, ¬ WritesPort value n) ∧ p = .invalidPort source value := by
  simp only [← readUInt16?_trim]
  unfold readPort
  cases Text.readUInt16? (Text.trim value) <;> simp [eq_comm]

/-- The text can be a namespace: it is not empty and has no slash at either end. -/
def IsNamespace (ns : String) : Prop := ns ≠ "" ∧ ¬ ['/'] <+: ns.toList ∧ ¬ ['/'] <:+ ns.toList

theorem isNamespace_iff {ns : String} : isNamespace ns = true ↔ IsNamespace ns := by
  have hfirst : ['/'] <+: ns.toList ↔ ns.toList.head? = some '/' := by
    rw [List.head?_eq_some_iff]
    exact exists_congr fun l => eq_comm
  have hlast : ['/'] <:+ ns.toList ↔ ns.toList.getLast? = some '/' := by
    rw [List.getLast?_eq_some_iff]
    exact exists_congr fun l => eq_comm
  unfold isNamespace IsNamespace
  rw [hfirst, hlast]
  simp [and_assoc]

/-! ## One step for each check -/

/-- The port of what was found for it. -/
def portOf : Option (String × String) → Except Problem Nat
  | some (source, value) => readPort source value
  | none => pure 4466

theorem portOf_some (source value : String) : portOf (some (source, value)) = readPort source value := rfl

/-- The namespace of what was found for it. -/
def namespaceOf (found : Option (String × String)) : Except Problem String :=
  let ns := (found.map (·.2)).getD "acl"
  if isNamespace ns then pure ns else throw (.invalidNamespace ns)

/-- The seed file of what was found for it. -/
def seedOf (found : Option (String × String)) : Option String :=
  (found.map (·.2)).filter fun path => !(Text.trim path).isEmpty

theorem namespaceOf_bind (found : Option (String × String)) (f : String → Except Problem Config) :
    namespaceOf found >>= f =
      let ns := (found.map (·.2)).getD "acl"
      if (!isNamespace ns) = true then do
        throw (.invalidNamespace ns)
        f ns
      else f ns := by
  unfold namespaceOf
  dsimp only
  cases isNamespace ((found.map (·.2)).getD "acl") <;> rfl

theorem resolve_eq (args : List String) (env : Table String String) : resolve args env = (do
    let port ← lookUp args env httpPortSetting
    let httpPort ← portOf port
    let bind ← lookUp args env bindSetting
    let ns ← lookUp args env namespaceSetting
    let ns ← namespaceOf ns
    let seed ← lookUp args env seedSetting
    return ⟨httpPort, (bind.map (·.2)).getD "0.0.0.0", ns, seedOf seed⟩) := by
  simp only [namespaceOf_bind]
  refine bind_congr fun port => ?_
  rcases port with _ | ⟨source, value⟩ <;> rfl

/-- The text that was chosen for the port writes none. -/
def NoPort (args : List String) (env : Table String String) (p : Problem) : Prop :=
  ∃ source value, Chosen args env httpPortSetting (some (source, value)) ∧ (∀ n, ¬ WritesPort value n) ∧
    p = .invalidPort source value

theorem portOf_eq_error {port : Option (String × String)} (h : lookUp args env httpPortSetting = .ok port) :
    portOf port = .error p ↔ NoPort args env p := by
  constructor
  · intro hp
    rcases port with _ | ⟨source, value⟩
    · cases hp
    · rw [portOf_some, readPort_eq_error] at hp
      exact ⟨source, value, chosen_of_lookUp h, hp⟩
  · rintro ⟨source, value, hc, hp⟩
    obtain rfl := (chosen_of_lookUp h).unique hc
    rw [portOf_some, readPort_eq_error]
    exact hp

/-- The text that was chosen for the namespace cannot be one. -/
def NoNamespace (args : List String) (env : Table String String) (p : Problem) : Prop :=
  ∃ ns, Selects args env namespaceSetting "acl" ns ∧ ¬ IsNamespace ns ∧ p = .invalidNamespace ns

theorem namespaceOf_eq_error {found : Option (String × String)}
    (h : lookUp args env namespaceSetting = .ok found) : namespaceOf found = .error p ↔ NoNamespace args env p := by
  constructor
  · intro hp
    unfold namespaceOf at hp
    dsimp only at hp
    split_ifs at hp with hn
    · cases hp
    · cases hp
      exact ⟨_, ⟨found, chosen_of_lookUp h, rfl⟩, fun hns => hn (isNamespace_iff.2 hns), rfl⟩
  · rintro ⟨ns, ⟨found', hc, rfl⟩, hns, rfl⟩
    obtain rfl := (chosen_of_lookUp h).unique hc
    unfold namespaceOf
    dsimp only
    rw [if_neg fun hn => hns (isNamespace_iff.1 hn)]
    rfl

/-- What is checked, in this order. -/
def checks (args : List String) (env : Table String String) : List (Problem → Prop) :=
  [Lacks args httpPortSetting, NoPort args env, Lacks args bindSetting, Lacks args namespaceSetting,
    NoNamespace args env, Lacks args seedSetting]

theorem reports_resolve (args : List String) (env : Table String String) :
    (resolve args env).Reports (checks args env) := by
  rw [resolve_eq]
  refine .bind (fun p => lookUp_eq_error) fun port hport => ?_
  refine .bind (fun p => portOf_eq_error hport) fun httpPort _ => ?_
  refine .bind (fun p => lookUp_eq_error) fun bind _ => ?_
  refine .bind (fun p => lookUp_eq_error) fun found hfound => ?_
  refine .bind (fun p => namespaceOf_eq_error hfound) fun ns _ => ?_
  exact .bind (fun p => lookUp_eq_error) fun seed _ => Except.reports_pure _

/-! ## Resolution -/

/-- The configuration has for every setting what was chosen for it, and the default where nothing was. -/
structure Meets (args : List String) (env : Table String String) (c : Config) : Prop where
  httpPort : ∃ found, Chosen args env httpPortSetting found ∧ (found = none → c.httpPort = 4466) ∧
    ∀ source value, found = some (source, value) → WritesPort value c.httpPort
  bind : Selects args env bindSetting "0.0.0.0" c.bind
  ns : Selects args env namespaceSetting "acl" c.ns
  seed : ∃ found, Chosen args env seedSetting found ∧
    ∀ path, c.seed = some path ↔ (∃ source, found = some (source, path)) ∧ ¬ Text.Blank path

theorem seedOf_eq_some {found : Option (String × String)} {path : String} :
    seedOf found = some path ↔ (∃ source, found = some (source, path)) ∧ ¬ Text.Blank path := by
  unfold seedOf
  rw [Option.filter_eq_some_iff, Option.map_eq_some_iff, ← Text.trim_isEmpty_iff]
  simp

theorem eq_of_namespaceOf {found : Option (String × String)} {ns : String} (h : namespaceOf found = .ok ns) :
    ns = (found.map (·.2)).getD "acl" := by
  unfold namespaceOf at h
  dsimp only at h
  split_ifs at h
  cases h
  rfl

theorem meets_of_resolve {c : Config} (h : resolve args env = .ok c) : Meets args env c := by
  rw [resolve_eq] at h
  obtain ⟨port, hport, h⟩ := Except.bind_eq_ok.1 h
  obtain ⟨httpPort, hp, h⟩ := Except.bind_eq_ok.1 h
  obtain ⟨bind, hbind, h⟩ := Except.bind_eq_ok.1 h
  obtain ⟨found, hfound, h⟩ := Except.bind_eq_ok.1 h
  obtain ⟨ns, hns, h⟩ := Except.bind_eq_ok.1 h
  obtain ⟨seed, hseed, h⟩ := Except.bind_eq_ok.1 h
  cases h
  refine ⟨⟨port, chosen_of_lookUp hport, ?_, ?_⟩, ⟨bind, chosen_of_lookUp hbind, rfl⟩,
    ⟨found, chosen_of_lookUp hfound, eq_of_namespaceOf hns⟩,
    ⟨seed, chosen_of_lookUp hseed, fun path => seedOf_eq_some⟩⟩
  · rintro rfl
    cases hp
    rfl
  · rintro source value rfl
    rw [portOf_some] at hp
    exact readPort_eq_ok.1 hp

/-- No check finds a problem exactly if every flag that occurs has a value and the texts chosen for the port
and the namespace can be used. -/
theorem no_check_iff : (∀ check ∈ checks args env, ∀ p, ¬ check p) ↔
    (∀ s ∈ settings, HasValue args s.flag) ∧
    (∀ source value, Chosen args env httpPortSetting (some (source, value)) → ∃ n, WritesPort value n) ∧
    ∀ ns, Selects args env namespaceSetting "acl" ns → IsNamespace ns := by
  have hlacks : ∀ s, (∀ p, ¬ Lacks args s p) ↔ HasValue args s.flag := by
    intro s
    simp [Lacks]
  have hport : (∀ p, ¬ NoPort args env p) ↔
      ∀ source value, Chosen args env httpPortSetting (some (source, value)) → ∃ n, WritesPort value n := by
    simp only [NoPort]
    grind
  have hns : (∀ p, ¬ NoNamespace args env p) ↔ ∀ ns, Selects args env namespaceSetting "acl" ns → IsNamespace ns := by
    simp only [NoNamespace]
    grind
  simp only [checks, settings, List.forall_mem_cons, List.not_mem_nil, IsEmpty.forall_iff, implies_true, hlacks,
    hport, hns]
  tauto

theorem resolve_congr {env' : Table String String}
    (h : ∀ s ∈ settings, s.flag ∉ args → env'.get? s.variableName = env.get? s.variableName) :
    resolve args env' = resolve args env := by
  have hl : ∀ s ∈ settings, lookUp args env' s = lookUp args env s := fun s hs => lookUp_congr (h s hs)
  rw [resolve_eq, resolve_eq, hl httpPortSetting (by simp [settings]), hl bindSetting (by simp [settings]),
    hl namespaceSetting (by simp [settings]), hl seedSetting (by simp [settings])]

/-- The texts that a problem is about. -/
def Problem.texts : Problem → List String
  | .invalidPort source value => [source, value]
  | .missingValue flag => [flag]
  | .invalidNamespace ns => [ns]

theorem Problem.exists_message_eq {t : String} (h : t ∈ p.texts) :
    ∃ before after, p.message = before ++ t ++ after := by
  cases p with
  | invalidPort source value =>
    have hm : (invalidPort source value).message = "invalid port '" ++ value ++ "' for " ++ source := rfl
    rw [hm]
    rcases List.mem_pair.1 h with rfl | rfl
    · exact ⟨_, "", String.append_empty.symm⟩
    · exact ⟨_, _, String.append_assoc⟩
  | missingValue flag =>
    obtain rfl := List.mem_singleton.1 h
    have hm : (missingValue t).message = "flag " ++ t ++ " expects a value" := rfl
    exact ⟨_, _, hm⟩
  | invalidNamespace ns =>
    obtain rfl := List.mem_singleton.1 h
    have hm : (invalidNamespace t).message =
        "namespace must be non-empty and must not start or end with '/': '" ++ t ++ "'" := rfl
    exact ⟨_, _, hm⟩

/-- There is a configuration exactly if every flag that occurs has a value and the texts chosen for the port
and the namespace can be used, and it has what was chosen. Otherwise the first check that fails is
reported, in words that show the texts it is about. What the environment says about a setting
whose flag occurs does not matter. -/
theorem resolve_or_first_problem (args : List String) (env : Table String String) :
    ((∃ c, resolve args env = .ok c) ↔
      (∀ s ∈ settings, HasValue args s.flag) ∧
      (∀ source value, Chosen args env httpPortSetting (some (source, value)) → ∃ n, WritesPort value n) ∧
      ∀ ns, Selects args env namespaceSetting "acl" ns → IsNamespace ns) ∧
    (∀ c, resolve args env = .ok c → Meets args env c) ∧
    (∀ p, resolve args env = .error p ↔ Except.FirstOf (checks args env) p) ∧
    (∀ p : Problem, ∀ t ∈ p.texts, ∃ before after, p.message = before ++ t ++ after) ∧
    ∀ env' : Table String String,
      (∀ s ∈ settings, s.flag ∉ args → env'.get? s.variableName = env.get? s.variableName) →
      resolve args env' = resolve args env := by
  have hreports := reports_resolve args env
  refine ⟨?_, fun c => meets_of_resolve, hreports, fun p t => Problem.exists_message_eq, fun env' => resolve_congr⟩
  rw [hreports.exists_ok, no_check_iff]

-- each flag stands where the other one's value should be, and the port is looked at first
example : resolve ["--bind", "--http-port"] ∅ = .error (.missingValue "--http-port") := by
  decide

end AccessRecords.Config
