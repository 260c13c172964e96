import ConvergentStore.Proofs.Number.Lenient
import ConvergentStore.Proofs.Retry.Attempts
import ConvergentStore.Proofs.Retry.Delays
import ConvergentStore.Settings

/-!
# Settings from an environment

Each setting is the text of the environment that has its name, read by the
grammar of numerals or of delays, or it is a default if there is no such text
(`Loads`). A text that is not valid is refused with a reason (`Refuses`), and it
is so whatever the other texts are: `loads_all_or_reports` says that settings
are loaded exactly if every text that is there is valid, and that otherwise the
problems are those of the others, each once and in the order of the settings.
-/

namespace ConvergentStore.Settings

-- Powers of natural numbers are the same under every import.
attribute [local instance(high)] instPowNat

/-! ## Valid texts -/

/-- A text denotes an integer that is not below a least one. -/
def DenotesInteger (least : Binary64) (content : String) (n : Binary64) : Prop :=
  Numeral.Denotes content.toList n ∧ n.isInteger = true ∧ Binary64.le least n = true

/-- A text that is not empty is a marker. -/
def DenotesMarker (content marker : String) : Prop :=
  content ≠ "" ∧ marker = content

/--
A text spells an amount of a unit, and that is a delay. The units and what they last are
those of `Delay.unitNames`.
-/
def DenotesDelay (content : String) (delay : Binary64) : Prop :=
  ∃ negative amount unit, Delay.Spells content.toList negative amount unit ∧
    Delay.ofAmount negative amount unit = .ok delay

/-- A text is valid for a setting. -/
def Valid : Variable → String → Prop
  | .kind, content => ∃ kind, DenotesInteger 0 content kind
  | .marker, content => ∃ marker, DenotesMarker content marker
  | .maxAttempts, content => ∃ attempts, DenotesInteger 1 content attempts
  | .delay, content => ∃ delay, DenotesDelay content delay

/-- The least integer that a setting may be, and the reason for refusing those below it. -/
def least? : Variable → Option (Binary64 × Reason)
  | .kind => some (0, .negativeKind)
  | .maxAttempts => some (1, .noAttempt)
  | .marker | .delay => none

/-- A text is refused for a setting, with the reason. -/
inductive Refuses : Variable → String → Reason → Prop where
  | notInteger {variableName : Variable} {content : String} :
      (least? variableName).isSome = true →
      (∀ n, Numeral.Denotes content.toList n → n.isInteger = false) →
      Refuses variableName content (.notInteger content)
  | below {variableName : Variable} {content : String} {least n : Binary64} {reason : Reason} :
      least? variableName = some (least, reason) → Numeral.Denotes content.toList n →
      n.isInteger = true → Binary64.le least n = false →
      Refuses variableName content reason
  | emptyMarker : Refuses .marker "" .emptyMarker
  | notDelay {content : String} :
      (∀ delay, ¬ DenotesDelay content delay) → Refuses .delay content (.notDelay content)

/-- A value is loaded for a setting: what its text denotes, or the default if there is none. -/
def Loads {α : Type} (environment : Environment) (variableName : Variable)
    (denotes : String → α → Prop) (default value : α) : Prop :=
  (∃ content, environment.get? variableName.name = some content ∧ denotes content value) ∨
    environment.get? variableName.name = none ∧ value = default

/-! ## Readers -/

section

variable {content : String}

theorem integerOf_eq_ok_iff {n : Binary64} :
    integerOf content = .ok n ↔ Numeral.Denotes content.toList n ∧ n.isInteger = true := by
  rw [← Numeral.lenient?_eq_some_iff, integerOf]
  cases Numeral.lenient? content.toList with
  | none => simp
  | some number =>
      by_cases whole : number.isInteger = true
      · simp only [whole, ↓reduceIte, Except.ok.injEq, Option.some.injEq]
        exact ⟨fun same => ⟨same, same ▸ whole⟩, And.left⟩
      · simp only [whole, Bool.false_eq_true, ↓reduceIte, reduceCtorEq, Option.some.injEq,
          false_iff]
        rintro ⟨rfl, integer⟩
        exact whole integer

theorem integerOf_eq_error_iff {reason : Reason} :
    integerOf content = .error reason ↔
      (∀ n, Numeral.Denotes content.toList n → n.isInteger = false) ∧
        reason = .notInteger content := by
  simp only [← Numeral.lenient?_eq_some_iff, integerOf]
  cases Numeral.lenient? content.toList with
  | none =>
      simp only [Except.error.injEq, reduceCtorEq, false_implies, implies_true, true_and, eq_comm]
  | some number =>
      simp only [Option.some.injEq, forall_eq']
      by_cases whole : number.isInteger = true
      · simp only [whole, ↓reduceIte, reduceCtorEq, Bool.true_eq_false, false_and]
      · simp only [whole, Bool.false_eq_true, ↓reduceIte, Except.error.injEq, true_and, eq_comm]

/-- An integer from a least one on is read, whatever is said about those below it. -/
theorem integerFrom_eq_ok_iff {least n : Binary64} {below : Reason} :
    (do
      let number ← integerOf content
      if Binary64.le least number then return number else throw below) = Except.ok n ↔
      DenotesInteger least content n := by
  rw [DenotesInteger, ← and_assoc, ← integerOf_eq_ok_iff]
  cases integerOf content with
  | error reason => exact ⟨nofun, nofun⟩
  | ok number =>
      show (if least.le number = true then Except.ok number else Except.error below) = _ ↔ _
      by_cases enough : least.le number = true
      · simp only [enough, ↓reduceIte, Except.ok.injEq]
        exact ⟨fun same => ⟨same, same ▸ enough⟩, And.left⟩
      · simp only [enough, Bool.false_eq_true, ↓reduceIte, reduceCtorEq, Except.ok.injEq, false_iff]
        rintro ⟨rfl, above⟩
        exact enough above

theorem integerFrom_eq_error_iff {least : Binary64} {below reason : Reason} :
    (do
      let number ← integerOf content
      if Binary64.le least number then return number else throw below) = Except.error reason ↔
      ((∀ n, Numeral.Denotes content.toList n → n.isInteger = false) ∧
          reason = .notInteger content) ∨
        ∃ n, Numeral.Denotes content.toList n ∧ n.isInteger = true ∧
          Binary64.le least n = false ∧ reason = below := by
  rw [← integerOf_eq_error_iff]
  simp only [← and_assoc (a := Numeral.Denotes _ _), ← integerOf_eq_ok_iff]
  cases integerOf content with
  | error other =>
      show Except.error other = _ ↔ _
      simp
  | ok number =>
      show (if least.le number = true then Except.ok number else Except.error below) = _ ↔ _
      by_cases enough : least.le number = true
      · simp only [enough, ↓reduceIte, Except.ok.injEq, exists_eq_left', reduceCtorEq,
          Bool.true_eq_false, false_and, or_false]
      · simp only [enough, Bool.false_eq_true, ↓reduceIte, Except.error.injEq, reduceCtorEq,
          Except.ok.injEq, exists_eq_left', false_or, true_and, eq_comm]

theorem markerOf_eq_ok_iff {marker : String} :
    markerOf content = .ok marker ↔ DenotesMarker content marker := by
  rw [DenotesMarker, markerOf]
  by_cases empty : content = ""
  · subst empty
    exact ⟨nofun, fun denoted => absurd rfl denoted.1⟩
  · have filled : content.isEmpty = false := by simpa using empty
    simp only [filled, Bool.false_eq_true, ↓reduceIte, Except.ok.injEq, ne_eq, empty,
      not_false_eq_true, true_and, eq_comm]

theorem delayOf_eq_ok_iff {delay : Binary64} :
    delayOf content = .ok delay ↔ DenotesDelay content delay := by
  rw [DenotesDelay, ← Delay.ofText_eq_ok_iff, delayOf]
  cases Delay.ofText content with
  | ok value => simp only [Except.ok.injEq]
  | error fault => exact ⟨nofun, nofun⟩

end

/--
A reader accepts the texts that denote something, gives their values, and has a
reason for refusing each of the others.
-/
structure Judges {α : Type} (variableName : Variable) (read : String → Except Reason α)
    (denotes : String → α → Prop) : Prop where
  accepts : ∀ content value, read content = .ok value ↔ denotes content value
  refuses : ∀ content reason, read content = .error reason ↔ Refuses variableName content reason
  valid : ∀ content, Valid variableName content ↔ ∃ value, denotes content value

/-- An integer from a least one on is judged alike for every setting that is one. -/
theorem judges_integer
    {variableName : Variable}
    {least : Binary64}
    {reason : Reason}
    (bounded : least? variableName = some (least, reason))
    (valid : ∀ content, Valid variableName content ↔ ∃ n, DenotesInteger least content n) :
    Judges variableName
      (fun content => do
        let number ← integerOf content
        if Binary64.le least number then return number else throw reason)
      (DenotesInteger least) := by
  refine ⟨fun _ _ => integerFrom_eq_ok_iff, fun content given => ?_, valid⟩
  refine integerFrom_eq_error_iff.trans ?_
  constructor
  · rintro (⟨none, rfl⟩ | ⟨n, denoted, whole, below, rfl⟩)
    · exact .notInteger (by rw [bounded]; rfl) none
    · exact .below bounded denoted whole below
  · intro refused
    cases refused with
    | notInteger _ none => exact .inl ⟨none, rfl⟩
    | below also denoted whole below =>
        rw [bounded] at also
        cases also
        exact .inr ⟨_, denoted, whole, below, rfl⟩
    | emptyMarker => cases bounded
    | notDelay => cases bounded

theorem judges_kind : Judges .kind kindOf (DenotesInteger 0) :=
  judges_integer rfl fun _ => Iff.rfl

theorem judges_maxAttempts : Judges .maxAttempts maxAttemptsOf (DenotesInteger 1) :=
  judges_integer rfl fun _ => Iff.rfl

theorem judges_marker : Judges .marker markerOf DenotesMarker := by
  refine ⟨fun _ _ => markerOf_eq_ok_iff, fun content reason => ?_, fun _ => Iff.rfl⟩
  by_cases empty : content = ""
  · subst empty
    constructor
    · rintro ⟨⟩
      exact .emptyMarker
    · intro refused
      cases refused with
      | notInteger none => cases none
      | below none => cases none
      | emptyMarker => rfl
  · constructor
    · intro refused
      rw [markerOf_eq_ok_iff.mpr ⟨empty, rfl⟩] at refused
      cases refused
    · intro refused
      cases refused with
      | notInteger none => cases none
      | below none => cases none
      | emptyMarker => exact absurd rfl empty

theorem judges_delay : Judges .delay delayOf DenotesDelay := by
  refine ⟨fun _ _ => delayOf_eq_ok_iff, fun content reason => ?_, fun _ => Iff.rfl⟩
  constructor
  · intro refused
    have none : ∀ delay, ¬ DenotesDelay content delay := by
      intro delay denoted
      rw [delayOf_eq_ok_iff.mpr denoted] at refused
      cases refused
    rw [delayOf] at refused
    split at refused
    · cases refused
    · cases refused
      exact .notDelay none
  · intro refused
    cases refused with
    | notInteger none => cases none
    | below none => cases none
    | notDelay none =>
        cases read : delayOf content with
        | ok delay => exact absurd (delayOf_eq_ok_iff.mp read) (none delay)
        | error reason =>
            rw [delayOf] at read
            split at read
            · cases read
            · exact read.symm

/-! ## Loading -/

/-- A setting has a text that is not valid for it. -/
def Invalid (environment : Environment) (variableName : Variable) : Prop :=
  ∃ content, environment.get? variableName.name = some content ∧ ¬ Valid variableName content

/-- The problems of some settings: those that have invalid texts, each once and in order. -/
structure Reports (environment : Environment) (variableNames : List Variable)
    (problems : List Problem) : Prop where
  ordered : (problems.map Problem.variableName).Sublist variableNames
  complete : ∀ variableName ∈ variableNames,
    variableName ∈ problems.map Problem.variableName ↔ Invalid environment variableName
  explained : ∀ problem ∈ problems, ∃ content,
    environment.get? problem.variableName.name = some content ∧
      Refuses problem.variableName content problem.reason

theorem Reports.append
    {environment : Environment}
    {first second : List Variable}
    {problems further : List Problem}
    (reports : Reports environment first problems)
    (others : Reports environment second further) :
    Reports environment (first ++ second) (problems ++ further) := by
  refine ⟨?ordered, ?complete, ?explained⟩
  case ordered =>
    rw [List.map_append]
    exact reports.ordered.append others.ordered
  case complete =>
    intro variableName member
    rw [List.map_append, List.mem_append]
    constructor
    · rintro (among | among)
      · exact (reports.complete _ (reports.ordered.subset among)).mp among
      · exact (others.complete _ (others.ordered.subset among)).mp among
    · intro invalid
      rcases List.mem_append.mp member with among | among
      · exact .inl ((reports.complete _ among).mpr invalid)
      · exact .inr ((others.complete _ among).mpr invalid)
  case explained =>
    intro problem member
    rcases List.mem_append.mp member with among | among
    · exact reports.explained problem among
    · exact others.explained problem among

theorem reports_nil
    {environment : Environment}
    {variableName : Variable}
    (valid : ¬ Invalid environment variableName) :
    Reports environment [variableName] [] := by
  refine ⟨List.nil_sublist _, ?_, nofun⟩
  rintro _ member
  rw [List.mem_singleton.mp member]
  exact ⟨nofun, fun invalid => absurd invalid valid⟩

theorem reports_singleton
    {environment : Environment}
    {problem : Problem}
    {content : String}
    (held : environment.get? problem.variableName.name = some content)
    (invalid : ¬ Valid problem.variableName content)
    (refused : Refuses problem.variableName content problem.reason) :
    Reports environment [problem.variableName] [problem] := by
  refine ⟨List.Sublist.refl _, ?_, ?_⟩
  · intro _ member
    rw [List.mem_singleton.mp member]
    exact ⟨fun _ => ⟨content, held, invalid⟩, fun _ => List.mem_singleton_self _⟩
  · intro _ member
    rw [List.mem_singleton.mp member]
    exact ⟨content, held, refused⟩

section

variable {α : Type}
  {variableName : Variable}
  {read : String → Except Reason α}
  {denotes : String → α → Prop}
  (judges : Judges variableName read denotes)
  (environment : Environment)
  (default : α)

include judges

theorem Judges.load_eq_ok_iff {value : α} :
    load environment variableName read default = .ok value ↔
      Loads environment variableName denotes default value := by
  simp only [load, Loads, ← judges.accepts]
  cases environment.get? variableName.name with
  | none => simp [eq_comm]
  | some content =>
      cases given : read content with
      | ok found => simp [Except.mapError, given]
      | error reason => simp [Except.mapError, given]

theorem Judges.load_eq_error_iff {problem : Problem} :
    load environment variableName read default = .error problem ↔
      ∃ content, environment.get? variableName.name = some content ∧
        Refuses variableName content problem.reason ∧ variableName = problem.variableName := by
  rcases problem with ⟨name, reason⟩
  simp only [load, ← judges.refuses]
  cases environment.get? variableName.name with
  | none => simp
  | some content =>
      cases given : read content with
      | ok found => simp [Except.mapError, given]
      | error other => simp [Except.mapError, given, and_comm]

/-- A setting can be loaded if its text is valid or there is none. -/
theorem Judges.exists_load_iff :
    (∃ value, load environment variableName read default = .ok value) ↔
      ∀ content, environment.get? variableName.name = some content →
        Valid variableName content := by
  simp only [judges.load_eq_ok_iff, Loads, judges.valid]
  cases environment.get? variableName.name with
  | none => simp
  | some content => simp

/-- A setting is a problem exactly if its text is not valid, and then for a reason. -/
theorem Judges.reports :
    Reports environment [variableName]
      (problemOf (load environment variableName read default)) := by
  have loads := judges.exists_load_iff environment default
  cases loaded : load environment variableName read default with
  | ok value =>
      refine reports_nil ?_
      rintro ⟨content, held, invalid⟩
      exact invalid (loads.mp ⟨value, loaded⟩ content held)
  | error problem =>
      rcases (judges.load_eq_error_iff environment default).mp loaded with
        ⟨content, held, refused, rfl⟩
      refine reports_singleton held (fun valid => ?_) refused
      rcases (judges.valid content).mp valid with ⟨value, denoted⟩
      have accepted := (judges.accepts _ _).mpr denoted
      rw [(judges.refuses _ _).mpr refused] at accepted
      cases accepted

end

section

variable {environment : Environment}

theorem ofEnvironment_eq_ok_iff_load {settings : Settings} :
    ofEnvironment environment = .ok settings ↔
      load environment .kind kindOf standard.kind = .ok settings.kind ∧
      load environment .marker markerOf standard.marker = .ok settings.marker ∧
      load environment .maxAttempts maxAttemptsOf standard.retry.maxAttempts =
        .ok settings.retry.maxAttempts ∧
      load environment .delay delayOf standard.retry.delay = .ok settings.retry.delay := by
  rcases settings with ⟨kind, marker, ⟨maxAttempts, delay⟩⟩
  unfold ofEnvironment
  dsimp only
  split
  · simp [*]
  · next failed =>
      refine ⟨nofun, ?_⟩
      rintro ⟨kindLoaded, markerLoaded, attemptsLoaded, delayLoaded⟩
      exact absurd delayLoaded (failed _ _ _ _ kindLoaded markerLoaded attemptsLoaded)

theorem reports_of_ofEnvironment_eq_error
    {problems : List Problem}
    (failed : ofEnvironment environment = .error problems) :
    Reports environment [.kind, .marker, .maxAttempts, .delay] problems := by
  have all := (((judges_kind.reports environment standard.kind).append
    (judges_marker.reports environment standard.marker)).append
      (judges_maxAttempts.reports environment standard.retry.maxAttempts)).append
        (judges_delay.reports environment standard.retry.delay)
  unfold ofEnvironment at failed
  dsimp only at failed
  split at failed
  · cases failed
  · cases failed
    exact all

end

/-! ## Sound settings -/

/-- What holds of all settings that are loaded. -/
structure Sound (settings : Settings) : Prop where
  kindInteger : settings.kind.isInteger = true
  kindUnsigned : Binary64.le 0 settings.kind = true
  marker : settings.marker ≠ ""
  attempts : settings.retry.maxAttempts.le (.ofNat (2 ^ 53)) = true →
    settings.retry.retries + 1 = settings.retry.maxAttempts
  delay : Binary64.le 0 settings.retry.delay = true

/-- A whole number of attempts from one on is allowed as it is. -/
theorem retries_add_one_of_isInteger
    {policy : Policy}
    (whole : policy.maxAttempts.isInteger = true)
    (positive : Binary64.le 1 policy.maxAttempts = true)
    (limited : policy.maxAttempts.le (.ofNat (2 ^ 53)) = true) :
    policy.retries + 1 = policy.maxAttempts := by
  rcases Option.isSome_iff_exists.mp whole with ⟨n, held⟩
  have one : (1 : Binary64).toInt? = some 1 := Binary64.toInt?_ofNat (by decide)
  have lower := (Binary64.le_iff_of_toInt? one held).mp positive
  have upper := (Binary64.le_iff_of_toInt? held (Binary64.toInt?_ofNat le_rfl)).mp limited
  obtain ⟨attempts, rfl⟩ : ∃ attempts : Nat, n = attempts := ⟨n.toNat, by omega⟩
  have bounded : attempts ≤ 2 ^ 53 := by exact_mod_cast upper
  have same := Binary64.eq_ofNat_of_toInt? held (by omega) bounded
  have allowed : policy.allowance = attempts := by
    rw [Policy.allowance, same, Binary64.floor_ofNat bounded, Binary64.toNat_ofNat bounded]
    exact max_eq_right (by omega)
  rw [Policy.retries_add_one (Binary64.isNaN_of_toInt? held) limited, allowed, same]

/-- What holds of the default and of everything that a text denotes holds of what is loaded. -/
theorem Loads.holds
    {α : Type}
    {environment : Environment}
    {variableName : Variable}
    {denotes : String → α → Prop}
    {default value : α}
    {P : α → Prop}
    (loads : Loads environment variableName denotes default value)
    (denoted : ∀ content value, denotes content value → P value)
    (given : P default) :
    P value := by
  rcases loads with ⟨content, _, spelled⟩ | ⟨_, rfl⟩
  · exact denoted content value spelled
  · exact given

/-- An integer that is loaded, from a default that is one, is not below the least one. -/
theorem Loads.integer
    {environment : Environment}
    {variableName : Variable}
    {least default value : Binary64}
    (loads : Loads environment variableName (DenotesInteger least) default value)
    (whole : default.isInteger = true)
    (enough : Binary64.le least default = true) :
    value.isInteger = true ∧ Binary64.le least value = true :=
  loads.holds (P := fun n => n.isInteger = true ∧ Binary64.le least n = true)
    (fun _ _ denoted => denoted.2) ⟨whole, enough⟩

theorem ofEnvironment_eq_ok_iff {environment : Environment} {settings : Settings} :
    ofEnvironment environment = .ok settings ↔
      Loads environment .kind (DenotesInteger 0) standard.kind settings.kind ∧
      Loads environment .marker DenotesMarker standard.marker settings.marker ∧
      Loads environment .maxAttempts (DenotesInteger 1) standard.retry.maxAttempts
        settings.retry.maxAttempts ∧
      Loads environment .delay DenotesDelay standard.retry.delay settings.retry.delay := by
  rw [ofEnvironment_eq_ok_iff_load, judges_kind.load_eq_ok_iff, judges_marker.load_eq_ok_iff,
    judges_maxAttempts.load_eq_ok_iff, judges_delay.load_eq_ok_iff]

theorem sound_of_ofEnvironment
    {environment : Environment}
    {settings : Settings}
    (loaded : ofEnvironment environment = .ok settings) :
    Sound settings := by
  rcases ofEnvironment_eq_ok_iff.mp loaded with ⟨kind, marker, maxAttempts, delay⟩
  rcases kind.integer (by decide +kernel) (by decide +kernel) with ⟨kindInteger, kindUnsigned⟩
  rcases maxAttempts.integer (by decide +kernel) (by decide +kernel) with ⟨whole, positive⟩
  refine ⟨kindInteger, kindUnsigned, ?marker, retries_add_one_of_isInteger whole positive, ?delay⟩
  case marker =>
    refine marker.holds (P := fun marker => marker ≠ "") ?_ (by decide)
    rintro content _ ⟨filled, rfl⟩
    exact filled
  case delay =>
    refine delay.holds (P := fun delay => Binary64.le 0 delay = true) ?_ (by decide +kernel)
    rintro content delay ⟨negative, amount, unit, _, given⟩
    exact Delay.zero_le_of_ofAmount given

/-! ## Loading settings -/

/--
Settings are loaded from an environment exactly if every text that it has for one of them
is valid, and each is then what its text denotes or, without a text, the default. Otherwise
the problems are the settings with texts that are not valid, each once, in order and with
a reason, whatever the others are. What is loaded is sound.
-/
theorem loads_exactly (environment : Environment) :
    (∀ settings, ofEnvironment environment = .ok settings ↔
      Loads environment .kind (DenotesInteger 0) standard.kind settings.kind ∧
      Loads environment .marker DenotesMarker standard.marker settings.marker ∧
      Loads environment .maxAttempts (DenotesInteger 1) standard.retry.maxAttempts
        settings.retry.maxAttempts ∧
      Loads environment .delay DenotesDelay standard.retry.delay settings.retry.delay) ∧
    ((∃ settings, ofEnvironment environment = .ok settings) ↔
      ∀ variableName content, environment.get? variableName.name = some content →
        Valid variableName content) ∧
    (∀ problems, ofEnvironment environment = .error problems →
      Reports environment [.kind, .marker, .maxAttempts, .delay] problems) ∧
    ∀ settings, ofEnvironment environment = .ok settings → Sound settings := by
  refine ⟨fun _ => ofEnvironment_eq_ok_iff, ?valid,
    fun _ => reports_of_ofEnvironment_eq_error, fun _ => sound_of_ofEnvironment⟩
  case valid =>
    have kind := judges_kind.exists_load_iff environment standard.kind
    have marker := judges_marker.exists_load_iff environment standard.marker
    have maxAttempts := judges_maxAttempts.exists_load_iff environment standard.retry.maxAttempts
    have delay := judges_delay.exists_load_iff environment standard.retry.delay
    constructor
    · rintro ⟨settings, loaded⟩ variableName
      rcases ofEnvironment_eq_ok_iff_load.mp loaded with ⟨first, second, third, fourth⟩
      cases variableName with
      | kind => exact kind.mp ⟨_, first⟩
      | marker => exact marker.mp ⟨_, second⟩
      | maxAttempts => exact maxAttempts.mp ⟨_, third⟩
      | delay => exact delay.mp ⟨_, fourth⟩
    · intro valid
      rcases kind.mpr (valid .kind) with ⟨kind, first⟩
      rcases marker.mpr (valid .marker) with ⟨marker, second⟩
      rcases maxAttempts.mpr (valid .maxAttempts) with ⟨maxAttempts, third⟩
      rcases delay.mpr (valid .delay) with ⟨delay, fourth⟩
      exact ⟨⟨kind, marker, ⟨maxAttempts, delay⟩⟩,
        ofEnvironment_eq_ok_iff_load.mpr ⟨first, second, third, fourth⟩⟩

/-- Three of four texts are not valid; of the other environment, all three texts are. -/
theorem loads_exactly_mixed :
    (∃ problems,
      ofEnvironment [("CRDT_EVENT_KIND", "-1"), ("CRDT_MARKER", ""),
        ("CRDT_PUBLISH_MAX_ATTEMPTS", " 0x10 "), ("CRDT_PUBLISH_RETRY_DELAY", "soon")] =
          .error problems ∧
        problems.map Problem.variableName = [.kind, .marker, .delay] ∧
        ∀ problem ∈ problems, ∃ content,
          Refuses problem.variableName content problem.reason) ∧
      ∃ settings,
        ofEnvironment [("CRDT_EVENT_KIND", " 0x10 "), ("CRDT_PUBLISH_MAX_ATTEMPTS", "2.5e1"),
            ("CRDT_PUBLISH_RETRY_DELAY", "1.5  hours")] = .ok settings ∧
          settings = ⟨16, "nostr-crdt", ⟨25, 5400000⟩⟩ ∧ Sound settings := by
  have failed :
      ofEnvironment [("CRDT_EVENT_KIND", "-1"), ("CRDT_MARKER", ""),
        ("CRDT_PUBLISH_MAX_ATTEMPTS", " 0x10 "), ("CRDT_PUBLISH_RETRY_DELAY", "soon")] =
          .error [⟨.kind, .negativeKind⟩, ⟨.marker, .emptyMarker⟩, ⟨.delay, .notDelay "soon"⟩] := by
    decide +kernel
  have loaded :
      ofEnvironment [("CRDT_EVENT_KIND", " 0x10 "), ("CRDT_PUBLISH_MAX_ATTEMPTS", "2.5e1"),
        ("CRDT_PUBLISH_RETRY_DELAY", "1.5  hours")] =
          .ok ⟨16, "nostr-crdt", ⟨25, 5400000⟩⟩ := by
    decide +kernel
  refine ⟨⟨_, failed, rfl, ?reasons⟩, _, loaded, rfl, ?sound⟩
  case reasons =>
    rcases loads_exactly _ with ⟨_, _, reports, _⟩
    intro problem member
    rcases (reports _ failed).explained problem member with ⟨content, _, refused⟩
    exact ⟨content, refused⟩
  case sound =>
    rcases loads_exactly _ with ⟨_, _, _, sound⟩
    exact sound _ loaded

end ConvergentStore.Settings
