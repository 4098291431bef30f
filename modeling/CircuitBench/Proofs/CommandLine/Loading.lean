import CircuitBench.CommandLine.Program
import Mathlib

/-!
# Loading settings

A settings file is checked on its own before a variable overrides any setting of it, and the
overridden settings are checked again. Without a file only the overridden defaults are checked.
Loading reads files and variables, and changes nothing.

Neither the format of the file nor that of a file of variables matters for this. The reader of the
first is any function from texts to settings, and a session holds any reader of the second.
-/

namespace CircuitBench

namespace Settings

section Override

variable {f g : String → Option String}

/-- Only the values of the known variables override. -/
theorem override_congr (same : ∀ name ∈ variableNames, f name = g name) (s : Settings) :
    s.override f = s.override g := by
  simp only [variableNames, List.forall_mem_cons] at same
  obtain ⟨h₁, h₂, h₃, h₄, h₅, h₆, h₇, h₈, h₉, -⟩ := same
  simp only [override, h₁, h₂, h₃, h₄, h₅, h₆, h₇, h₈, h₉]

theorem load_congr (same : ∀ name ∈ variableNames, f name = g name)
    (decode : String → Except String Settings) (text? : Option String) :
    load decode f text? = load decode g text? := by
  simp only [load, override_congr same]

end Override

section Check

variable {s loaded : Settings} {error : SettingsError}

theorem checked_eq_ok_iff : s.checked = .ok loaded ↔ loaded = s ∧ s.check = .ok () := by
  rw [checked]
  cases s.check with
  | error fault => simp
  | ok _ => simp [eq_comm]

theorem checked_eq_error_iff :
    s.checked = .error error ↔ ∃ fault, error = .values fault ∧ s.check = .error fault := by
  rw [checked]
  cases s.check with
  | error fault => simp [eq_comm]
  | ok _ => simp

end Check

section Load

variable {decode : String → Except String Settings} {lookup : String → Option String}
  {text : String} {settings : Settings}

/-- The settings of a text are checked, then overridden, and then checked again. -/
theorem load_of_decode (parsed : decode text = .ok settings) :
    load decode lookup (some text) =
      match settings.check with
      | .ok () => (settings.override lookup).checked
      | .error fault => .error (.values fault) := by
  have alone : decoded decode text = settings.checked := by rw [decoded, parsed]
  show (decoded decode text).bind (fun settings => (settings.override lookup).checked) = _
  rw [alone, checked]
  cases settings.check <;> rfl

/-- A text is loaded if its settings pass their check both with and without the variables. -/
theorem load_eq_ok_iff (parsed : decode text = .ok settings) {loaded : Settings} :
    load decode lookup (some text) = .ok loaded ↔
      loaded = settings.override lookup ∧
        settings.check = .ok () ∧ (settings.override lookup).check = .ok () := by
  rw [load_of_decode parsed]
  cases settings.check with
  | error fault => simp
  | ok _ => simp [checked_eq_ok_iff]

/-- The fault of the settings alone counts before a fault of the overridden settings. -/
theorem load_eq_error_iff (parsed : decode text = .ok settings) {error : SettingsError} :
    load decode lookup (some text) = .error error ↔
      ∃ fault, error = .values fault ∧
        (settings.check = .error fault ∨
          settings.check = .ok () ∧ (settings.override lookup).check = .error fault) := by
  rw [load_of_decode parsed]
  cases settings.check with
  | error fault => simp [eq_comm]
  | ok _ => simp [checked_eq_error_iff]

end Load

end Settings

namespace CommandLine

namespace Session

def settingsFile (session : Session) : Option String → Except SettingsError (Option String)
  | some path =>
    match session.files.read path with
    | .ok text => .ok (some text)
    | .error fault => .error (.file path fault.message)
  | none =>
    match session.files.read ("." ++ "/.qplay/config.yaml") with
    | .ok text => .ok (some text)
    | .error (.other text) => .error (.file ("." ++ "/.qplay/config.yaml") text)
    | .error _ => .ok none

theorem run_readFile (path : String) (session : Session) :
    (Host.readFile (m := StateM Session) path).run session =
      pure (session.files.read path, session) := rfl

theorem run_lookup? (name : String) (session : Session) :
    (Host.lookup? (m := StateM Session) name).run session =
      pure (session.lookup? name, session) := rfl

theorem run_home? (session : Session) :
    (Host.home? (m := StateM Session)).run session = pure (some ".", session) := rfl

end Session

section Running

variable {α β ε : Type} {session after : Session}

theorem run_lift {read : StateM Session α} {value : α}
    (done : read.run session = pure (value, after)) :
    (liftM read : ExceptT ε (StateM Session) α).run.run session = pure (.ok value, after) := by
  rw [liftM, ExceptT.run_monadLift, monadLift_self, StateT.run_map, done, map_pure]

/-- What is done next depends on how the first part has ended. -/
theorem run_bind {first : ExceptT ε (StateM Session) α} {result : Except ε α}
    (done : first.run.run session = pure (result, after))
    (next : α → ExceptT ε (StateM Session) β) :
    (first >>= next).run.run session = StateT.run (ExceptT.bindCont next result) after := by
  rw [ExceptT.run_bind, StateT.run_bind, done, pure_bind]
  rfl

end Running

theorem settingsText_run (config : Option String) (session : Session) :
    (settingsText config :
        ExceptT SettingsError (StateM Session) (Option String)).run.run session =
      pure (session.settingsFile config, session) := by
  cases config with
  | some path =>
    refine (run_bind (run_lift (session.run_readFile path)) _).trans ?_
    rw [Session.settingsFile]
    cases session.files.read path <;> rfl
  | none =>
    refine (run_bind (run_lift session.run_home?) _).trans ?_
    refine (run_bind (run_lift (session.run_readFile _)) _).trans ?_
    rw [Session.settingsFile]
    cases session.files.read ("." ++ "/.qplay/config.yaml") with
    | ok text => rfl
    | error fault => cases fault <;> rfl

/-- The values of variables, read one after the other. -/
theorem run_values {ε : Type} (names : List String) (session : Session) :
    (names.mapM fun name => do return (name, ← Host.lookup? (m := StateM Session) name) :
        ExceptT ε (StateM Session) (List (String × Option String))).run.run session =
      pure (.ok (names.map fun name => (name, session.lookup? name)), session) := by
  induction names with
  | nil => rfl
  | cons name names ih =>
    rw [List.mapM_cons]
    refine (run_bind (run_bind (run_lift (session.run_lookup? name)) _) _).trans ?_
    exact run_bind ih _

theorem lookup_map_of_mem {α : Type} (f : String → α) {names : List String} {name : String}
    (member : name ∈ names) :
    (names.map fun name => (name, f name)).lookup name = some (f name) := by
  induction names with
  | nil => cases member
  | cons first names ih =>
    rw [List.map_cons, List.lookup_cons]
    cases same : name == first with
    | true => rw [eq_of_beq same]
    | false => exact ih ((List.mem_cons.mp member).resolve_left (ne_of_beq_false same))

variable {decode : String → Except String Settings} {config : Option String} {session : Session}

/-- Loading in one equation: the settings of the file if there is one, else the defaults, then
the variables over them. -/
theorem loadSettings_run :
    (loadSettings decode config : ExceptT SettingsError (StateM Session) Settings).run.run session =
      pure ((session.settingsFile config).bind (Settings.load decode session.lookup?),
        session) := by
  rw [loadSettings]
  refine (run_bind (settingsText_run config session) _).trans ?_
  cases session.settingsFile config with
  | error error => rfl
  | ok text? =>
    refine (run_bind (run_values Settings.variableNames session) _).trans ?_
    have values : ∀ name ∈ Settings.variableNames,
        ((Settings.variableNames.map fun name => (name, session.lookup? name)).lookup
          name).join = session.lookup? name := by
      intro name member
      rw [lookup_map_of_mem session.lookup? member, Option.join_some]
    show _ = pure (Settings.load decode session.lookup? text?, session)
    rw [← Settings.load_congr values decode text?]
    rfl

/-- The settings of a file are checked before a variable overrides any of them, and again
afterwards. So they are loaded if and only if they pass their check both with and without the
variables, and a variable does not repair a file that does not pass alone. -/
theorem settings_of_a_file_are_checked_alone {text : String} {settings : Settings}
    (found : session.settingsFile config = .ok (some text))
    (parsed : decode text = .ok settings) :
    ∃ result,
      (loadSettings decode config : ExceptT SettingsError (StateM Session) Settings).run session =
        (result, session) ∧
      (∀ loaded, result = .ok loaded ↔
        loaded = settings.override session.lookup? ∧
          settings.check = .ok () ∧ (settings.override session.lookup?).check = .ok ()) ∧
      ∀ error, result = .error error ↔
        ∃ fault, error = .values fault ∧
          (settings.check = .error fault ∨
            settings.check = .ok () ∧
              (settings.override session.lookup?).check = .error fault) := by
  refine ⟨_, loadSettings_run, ?_⟩
  rw [found]
  exact ⟨fun _ => Settings.load_eq_ok_iff parsed, fun _ => Settings.load_eq_error_iff parsed⟩

/-- A file that lowers the largest number of shots below the default number. -/
def cappedText : String :=
  "execution:\n  max_shots: 100\n"

/-- A reader that knows this file only. -/
def readCapped (text : String) : Except String Settings :=
  if text = cappedText then .ok { execution := { maxShots := 100 } } else .error "unknown"

/-- The file, and a variable that lowers the default number of shots as well. -/
def cappedSession : Session where
  files := .ofFiles [("c.yaml", cappedText)]
  environment := [("QPLAY_DEFAULT_SHOTS", "50")]

theorem settings_of_a_file_are_checked_alone_capped :
    ((loadSettings readCapped (some "c.yaml") :
        ExceptT SettingsError (StateM Session) Settings).run cappedSession).1 =
      .error (.values (.defaultShots 1024 100)) := by
  have found : cappedSession.settingsFile (some "c.yaml") = .ok (some cappedText) := by
    decide +kernel
  have parsed : readCapped cappedText = .ok { execution := { maxShots := 100 } } := if_pos rfl
  obtain ⟨result, run, -, refused⟩ := settings_of_a_file_are_checked_alone found parsed
  rw [run]
  exact (refused _).mpr ⟨_, rfl, .inl (by decide +kernel)⟩

/-- A variable does not repair what a file breaks together with the defaults. -/
theorem variable_does_not_repair_file :
    ¬∀ (decode : String → Except String Settings) (session : Session) (config : Option String)
        (text : String) (settings : Settings),
      session.settingsFile config = .ok (some text) → decode text = .ok settings →
      (((loadSettings decode config :
            ExceptT SettingsError (StateM Session) Settings).run session).1 =
          .ok (settings.override session.lookup?) ↔
        (settings.override session.lookup?).check = .ok ()) := by
  intro repairs
  have loads := (repairs readCapped cappedSession (some "c.yaml") cappedText
    { execution := { maxShots := 100 } } (by decide +kernel) (if_pos rfl)).mpr (by decide +kernel)
  revert loads
  decide +kernel

/-- Without a file the defaults are checked under the variables only. -/
theorem loadSettings_run_of_no_file (absent : session.settingsFile config = .ok none) :
    (loadSettings decode config : ExceptT SettingsError (StateM Session) Settings).run.run session =
      pure ((Settings.override session.lookup? {}).checked, session) := by
  rw [loadSettings_run, absent]
  rfl

end CommandLine

end CircuitBench
