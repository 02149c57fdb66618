import Cookbook.Session
import Mathlib.Order.Defs.Unbundled

/-!
Taking actions apart: what the disk said to one that succeeded and which session it left, and what an
action keeps of a session however it ends.
-/

/-- The state that an action leaves, whether it succeeds or fails. -/
def EStateM.left {ε σ α : Type} (action : EStateM ε σ α) (state : σ) : σ :=
  match action.run state with
  | .ok _ after | .error _ after => after

namespace Cookbook

theorem except_bind_eq_ok {ε α β : Type} {outcome : Except ε α} {next : α → Except ε β}
    {value : β} :
    (outcome >>= next) = .ok value ↔ ∃ result, outcome = .ok result ∧ next result = .ok value := by
  cases outcome with
  | ok result => simp [bind, Except.bind]
  | error fault => simp [bind, Except.bind]

theorem except_toOption_eq_some {ε α : Type} {outcome : Except ε α} {value : α} :
    outcome.toOption = some value ↔ outcome = .ok value := by
  cases outcome <;> simp [Except.toOption]

namespace Action

variable {ε α β : Type} {session after : Session} {path : Path}

theorem bind_eq_ok {action : EStateM ε Session α} {next : α → EStateM ε Session β} {value : β} :
    (action >>= next).run session = .ok value after ↔
      ∃ result between, action.run session = .ok result between ∧
        (next result).run between = .ok value after := by
  rw [EStateM.run_bind]
  constructor
  · intro run
    cases first : action.run session with
    | ok result between => exact ⟨result, between, rfl, by simpa [first] using run⟩
    | error failure between => simp [first] at run
  · intro ⟨result, between, first, second⟩
    rw [first]
    exact second

theorem pure_eq_ok {value result : α} :
    (pure value : EStateM ε Session α).run session = .ok result after ↔
      value = result ∧ session = after := by
  simp

theorem throw_ne_ok {failure : ε} {value : α} :
    (throw failure : EStateM ε Session α).run session ≠ .ok value after := by
  intro run
  cases run

theorem ofExcept_eq_ok {outcome : Except Failure α} {value : α} :
    (ofExcept outcome).run session = .ok value after ↔ outcome = .ok value ∧ session = after := by
  cases outcome with
  | ok result => simp [ofExcept]
  | error failure => simp [ofExcept, throw_ne_ok]

theorem isFile_eq_ok {answer : Bool} :
    (isFile path).run session = .ok answer after ↔
      session.disk.isFile path = answer ∧ session = after := by
  show EStateM.Result.ok (session.disk.isFile path) session = _ ↔ _
  simp

theorem isFolder_eq_ok {answer : Bool} :
    (isFolder path).run session = .ok answer after ↔
      session.disk.isFolder path = answer ∧ session = after := by
  show EStateM.Result.ok (session.disk.isFolder path) session = _ ↔ _
  simp

theorem look_eq_ok {ask : Disk → Except DiskFault α} {value : α} :
    (look path ask).run session = .ok value after ↔
      ask session.disk = .ok value ∧ session = after := by
  unfold look
  rw [bind_eq_ok]
  constructor
  · intro ⟨found, between, get, answer⟩
    cases get
    cases outcome : ask session.disk with
    | ok result => simpa [outcome] using answer
    | error fault => simp [outcome, throw_ne_ok] at answer
  · intro ⟨answer, same⟩
    refine ⟨session, session, rfl, ?_⟩
    rw [answer]
    exact congrArg _ same

theorem look_of_error {ask : Disk → Except DiskFault α} {fault : DiskFault}
    (answer : ask session.disk = .error fault) :
    (look path ask).run session = .error (.io path fault) session := by
  have got : (get : Action Session).run session = .ok session session := rfl
  unfold look
  rw [EStateM.run_bind, got]
  simp only [answer]
  rfl

theorem readText_eq_ok {text : String} :
    (readText path).run session = .ok text after ↔
      session.disk.readText path = .ok text ∧ session = after :=
  look_eq_ok

theorem change_eq_ok {f : Disk → Except DiskFault Disk} :
    (change path f).run session = .ok () after ↔
      ∃ disk, f session.disk = .ok disk ∧ { session with disk } = after := by
  unfold change
  simp only [bind_eq_ok, look_eq_ok]
  constructor
  · intro ⟨disk, between, ⟨answer, same⟩, changed⟩
    subst same
    cases changed
    exact ⟨disk, answer, rfl⟩
  · intro ⟨disk, answer, same⟩
    exact ⟨disk, session, ⟨answer, rfl⟩, by rw [← same]; rfl⟩

theorem createFolders_eq_ok :
    (createFolders path).run session = .ok () after ↔
      ∃ disk, session.disk.createFolders path = (disk, .ok ()) ∧ { session with disk } = after := by
  unfold createFolders
  rw [bind_eq_ok]
  cases made : session.disk.createFolders path with
  | mk disk outcome =>
      constructor
      · intro ⟨found, between, get, run⟩
        cases get
        rw [made] at run
        cases outcome with
        | ok => cases run; exact ⟨disk, rfl, rfl⟩
        | error fault => cases run
      · intro ⟨all, same, left⟩
        obtain ⟨rfl, rfl⟩ := Prod.mk.inj same
        refine ⟨session, session, rfl, ?_⟩
        rw [made, ← left]
        rfl

theorem createFolders_of_error {disk : Disk} {fault : DiskFault}
    (made : session.disk.createFolders path = (disk, .error fault)) :
    (createFolders path).run session = .error (.io path fault) { session with disk } := by
  have got : (get : Action Session).run session = .ok session session := rfl
  unfold createFolders
  rw [EStateM.run_bind, got]
  simp only [made]
  rfl

theorem throwUnless_eq_ok {check : EStateM ε Session Bool} {failure : ε} {rest : EStateM ε Session α}
    {value : α} :
    (do
      if !(← check) then throw failure
      rest : EStateM ε Session α).run session = .ok value after ↔
      ∃ between, check.run session = .ok true between ∧ rest.run between = .ok value after := by
  rw [bind_eq_ok]
  constructor
  · intro ⟨answer, between, checked, run⟩
    cases answer with
    | false => cases run
    | true => exact ⟨between, checked, run⟩
  · intro ⟨between, checked, run⟩
    exact ⟨true, between, checked, run⟩

theorem forM_nil_eq_ok {f : α → Action Unit} :
    (([] : List α).forM f).run session = .ok () after ↔ session = after := by
  rw [List.forM, pure_eq_ok]
  simp

theorem forM_cons_eq_ok {f : α → Action Unit} {item : α} {items : List α} :
    ((item :: items).forM f).run session = .ok () after ↔
      ∃ between, (f item).run session = .ok () between ∧
        (items.forM f).run between = .ok () after := by
  rw [List.forM, bind_eq_ok]
  constructor
  · intro ⟨_, between, first, rest⟩
    exact ⟨between, first, rest⟩
  · intro ⟨between, first, rest⟩
    exact ⟨(), between, first, rest⟩

theorem forM_append_eq_ok {f : α → Action Unit} {front back : List α} :
    ((front ++ back).forM f).run session = .ok () after ↔
      ∃ between, (front.forM f).run session = .ok () between ∧
        (back.forM f).run between = .ok () after := by
  induction front generalizing session with
  | nil => simp
  | cons item front ih =>
      simp only [List.cons_append, forM_cons_eq_ok, ih]
      exact ⟨fun ⟨now, step, between, walked, rest⟩ => ⟨between, ⟨now, step, walked⟩, rest⟩,
        fun ⟨between, ⟨now, step, walked⟩, rest⟩ => ⟨now, step, between, walked, rest⟩⟩

def value? (action : Action α) (session : Session) : Option α :=
  match action.run session with
  | .ok value _ => some value
  | .error _ _ => none

def failure? (action : EStateM ε Session α) (session : Session) : Option ε :=
  match action.run session with
  | .ok _ _ => none
  | .error failure _ => some failure

/-! ## What actions keep -/

def outcome (action : Action α) (session : Session) : Except Failure α :=
  match action.run session with
  | .ok value _ => .ok value
  | .error failure _ => .error failure

theorem attempt_run (action : Action α) (session : Session) :
    (attempt action).run session = .ok (action.outcome session) (action.left session) := by
  unfold outcome EStateM.left
  show (match action.run session with | .ok _ _ => _ | .error _ _ => _) = _
  cases action.run session <;> rfl

theorem run_eq_ok {action : Action α} {value : α} (given : action.value? session = some value) :
    action.run session = .ok value (action.left session) := by
  unfold value? at given
  unfold EStateM.left
  split at given
  · next run =>
      cases given
      rw [run]
  · cases given

theorem run_eq_error {action : EStateM ε Session α} {failure : ε}
    (given : failure? action session = some failure) :
    action.run session = .error failure (action.left session) := by
  unfold failure? at given
  unfold EStateM.left
  split at given
  · cases given
  · next run =>
      cases given
      rw [run]

theorem left_of_ok {action : EStateM ε Session α} {value : α}
    (run : action.run session = .ok value after) : action.left session = after := by
  rw [EStateM.left, run]

theorem left_of_error {action : EStateM ε Session α} {failure : ε}
    (run : action.run session = .error failure after) : action.left session = after := by
  rw [EStateM.left, run]

theorem run_bind_of_ok {action : EStateM ε Session α} {next : α → EStateM ε Session β} {value : α}
    (run : action.run session = .ok value after) :
    (action >>= next).run session = (next value).run after := by
  rw [EStateM.run_bind, run]

theorem run_bind_of_error {action : EStateM ε Session α} {next : α → EStateM ε Session β} {failure : ε}
    (run : action.run session = .error failure after) :
    (action >>= next).run session = .error failure after := by
  rw [EStateM.run_bind, run]

theorem bind_eq_error {action : EStateM ε Session α} {next : α → EStateM ε Session β} {failure : ε} :
    (action >>= next).run session = .error failure after ↔
      action.run session = .error failure after ∨ ∃ value between,
        action.run session = .ok value between ∧ (next value).run between = .error failure after := by
  cases first : action.run session with
  | error cause between =>
      rw [run_bind_of_error first]
      simp
  | ok value between =>
      rw [run_bind_of_ok first]
      simp only [reduceCtorEq, false_or]
      constructor
      · exact fun failed => ⟨value, between, rfl, failed⟩
      · rintro ⟨_, _, ⟨⟩, failed⟩
        exact failed

theorem left_bind_of_ok {action : EStateM ε Session α} {next : α → EStateM ε Session β} {value : α}
    (run : action.run session = .ok value after) :
    (action >>= next).left session = (next value).left after := by
  rw [EStateM.left, EStateM.left, run_bind_of_ok run]

theorem left_bind_of_error {action : EStateM ε Session α} {next : α → EStateM ε Session β}
    {failure : ε} (run : action.run session = .error failure after) : (action >>= next).left session = after :=
  left_of_error (run_bind_of_error run)

theorem left_change (path : Path) (f : Disk → Except DiskFault Disk) (session : Session) :
    (change path f).left session =
      match f session.disk with
      | .ok disk => { session with disk }
      | .error _ => session := by
  cases answer : f session.disk with
  | ok disk => exact left_of_ok (change_eq_ok.mpr ⟨disk, answer, rfl⟩)
  | error fault => exact left_bind_of_error (look_of_error answer)

/-- That the session which an action leaves is always related to the one that it found. -/
def Keeps (relation : Session → Session → Prop) (action : EStateM ε Session α) : Prop :=
  ∀ session, relation session (action.left session)

section Keeps

variable {relation : Session → Session → Prop}

theorem Keeps.ok {action : EStateM ε Session α} (keeps : Keeps relation action) {value : α}
    (run : action.run session = .ok value after) : relation session after := by
  have related := keeps session
  rwa [EStateM.left, run] at related

theorem keeps_bind [IsTrans Session relation] {action : EStateM ε Session α}
    {next : α → EStateM ε Session β}
    (first : Keeps relation action) (second : ∀ result, Keeps relation (next result)) :
    Keeps relation (action >>= next) := by
  intro session
  have related := first session
  rw [EStateM.left, EStateM.run_bind]
  cases run : action.run session with
  | error failure between => simpa [EStateM.left, run] using related
  | ok result between =>
      rw [EStateM.left, run] at related
      exact trans_of relation related (second result between)

theorem left_bind_keeps [IsPreorder Session relation] {action : EStateM ε Session α}
    {next : α → EStateM ε Session β} (rest : ∀ value, Keeps relation (next value)) :
    relation (action.left session) ((action >>= next).left session) := by
  cases run : action.run session with
  | error failure after =>
      rw [left_bind_of_error run, left_of_error run]
      exact refl_of relation after
  | ok value after =>
      rw [left_bind_of_ok run, left_of_ok run]
      exact rest value after

theorem left_map {action : EStateM ε Session α} (f : α → β) :
    (action >>= fun value => pure (f value)).left session = action.left session := by
  cases run : action.run session with
  | error failure after => rw [left_bind_of_error run, left_of_error run]
  | ok value after =>
      rw [left_bind_of_ok run, left_of_ok run]
      rfl

theorem keeps_attempt {action : Action α} (keeps : Keeps relation action) :
    Keeps relation (attempt action) := by
  intro session
  rw [left_of_ok (attempt_run action session)]
  exact keeps session

theorem keeps_createFolders
    (step : ∀ session : Session,
      relation session { session with disk := (session.disk.createFolders path).1 }) :
    Keeps relation (createFolders path) := by
  intro session
  have related := step session
  cases made : session.disk.createFolders path with
  | mk disk outcome =>
      rw [made] at related
      cases outcome with
      | ok => rwa [left_of_ok (createFolders_eq_ok.mpr ⟨disk, made, rfl⟩)]
      | error fault => rwa [left_of_error (createFolders_of_error made)]

variable [Std.Refl relation]

theorem keeps_pure (value : α) : Keeps relation (pure value : EStateM ε Session α) :=
  fun session => refl_of relation session

theorem keeps_throw (failure : ε) : Keeps relation (throw failure : EStateM ε Session α) :=
  fun session => refl_of relation session

theorem keeps_get : Keeps relation (get : EStateM ε Session Session) :=
  fun session => refl_of relation session

theorem keeps_isFile (path : Path) : Keeps relation (isFile path) :=
  fun session => refl_of relation session

theorem keeps_isFolder (path : Path) : Keeps relation (isFolder path) :=
  fun session => refl_of relation session

theorem keeps_ofExcept (outcome : Except Failure α) : Keeps relation (ofExcept outcome) := by
  cases outcome with
  | ok value => exact keeps_pure value
  | error failure => exact keeps_throw failure

theorem keeps_look_bind {ask : Disk → Except DiskFault α} {next : α → Action β}
    (onward : ∀ session value, ask session.disk = .ok value →
      relation session ((next value).left session)) :
    Keeps relation (look path ask >>= next) := by
  intro session
  cases answer : ask session.disk with
  | ok value =>
      have looked : (look path ask).run session = .ok value session :=
        look_eq_ok.mpr ⟨answer, rfl⟩
      rw [left_bind_of_ok looked]
      exact onward session value answer
  | error fault =>
      rw [left_bind_of_error (look_of_error answer)]
      exact refl_of relation session

theorem keeps_look (path : Path) (ask : Disk → Except DiskFault α) :
    Keeps relation (look path ask) := by
  rw [← bind_pure (look path ask)]
  exact keeps_look_bind fun session _ _ => refl_of relation session

theorem keeps_change {f : Disk → Except DiskFault Disk}
    (step : ∀ session disk, f session.disk = .ok disk → relation session { session with disk }) :
    Keeps relation (change path f) :=
  keeps_look_bind step

theorem keeps_throwUnless [IsTrans Session relation] {check : EStateM ε Session Bool} {failure : ε}
    {rest : EStateM ε Session α} (checking : Keeps relation check) (going : Keeps relation rest) :
    Keeps relation (do
      if !(← check) then throw failure
      rest : EStateM ε Session α) := by
  refine keeps_bind checking ?_
  intro answer
  cases answer with
  | false => exact keeps_throw failure
  | true => exact going

theorem keeps_throwIf [IsTrans Session relation] {check : EStateM ε Session Bool} {failure : ε}
    {rest : EStateM ε Session α} (checking : Keeps relation check) (going : Keeps relation rest) :
    Keeps relation (do
      if ← check then throw failure
      rest : EStateM ε Session α) := by
  refine keeps_bind checking ?_
  intro answer
  cases answer with
  | false => exact going
  | true => exact keeps_throw failure

theorem keeps_forM [IsTrans Session relation] {items : List α} {f : α → EStateM ε Session Unit}
    (each : ∀ item ∈ items, Keeps relation (f item)) : Keeps relation (items.forM f) := by
  induction items with
  | nil => exact keeps_pure ()
  | cons item items ih =>
      obtain ⟨first, rest⟩ := List.forall_mem_cons.mp each
      exact keeps_bind first fun _ => ih rest

end Keeps

def SameDisk (session after : Session) : Prop := after.disk = session.disk

instance : IsPreorder Session SameDisk where
  refl _ := rfl
  trans _ _ _ first second := second.trans first

/-- That a session is another one but for its disk. -/
def OnDisk (session after : Session) : Prop := after = { session with disk := after.disk }

instance : IsPreorder Session OnDisk where
  refl _ := rfl
  trans _ _ _ first second := by
    rw [OnDisk, second, first]

namespace OnDisk

theorem runs (touches : OnDisk session after) : after.runs = session.runs := by rw [touches]

theorem published (touches : OnDisk session after) : after.published = session.published := by
  rw [touches]

end OnDisk

theorem change_onDisk (path : Path) (f : Disk → Except DiskFault Disk) :
    Keeps OnDisk (change path f) :=
  keeps_change fun _ _ _ => rfl

theorem createFolders_onDisk (path : Path) : Keeps OnDisk (createFolders path) :=
  keeps_createFolders fun _ => rfl

theorem left_bind_cases {action : EStateM ε Session α} (same : Keeps SameDisk action)
    (next : α → EStateM ε Session β) (session : Session) :
    SameDisk session ((action >>= next).left session) ∨ ∃ value after,
      action.run session = .ok value after ∧ SameDisk session after ∧
        (action >>= next).left session = (next value).left after := by
  have kept := same session
  cases run : action.run session with
  | ok value after =>
      rw [left_of_ok run] at kept
      exact .inr ⟨value, after, rfl, kept, left_bind_of_ok run⟩
  | error failure after =>
      rw [left_of_error run] at kept
      rw [left_bind_of_error run]
      exact .inl kept

theorem disk_left_bind (action : EStateM ε Session α) {next : α → EStateM ε Session β}
    (still : ∀ value, Keeps SameDisk (next value)) (session : Session) :
    ((action >>= next).left session).disk = (action.left session).disk := by
  cases run : action.run session with
  | ok value after =>
      rw [left_bind_of_ok run, left_of_ok run]
      exact still value after
  | error failure after => rw [left_bind_of_error run, left_of_error run]

/-! ## How actions fail -/

/-- That all failures an action can end in are of a kind. -/
def FailsOnly (kind : ε → Prop) (action : EStateM ε Session α) : Prop :=
  ∀ session failure after, action.run session = .error failure after → kind failure

section FailsOnly

variable {kind : ε → Prop}

theorem FailsOnly.of_run {action : EStateM ε Session α} (only : FailsOnly kind action) {failure : ε}
    (run : action.run session = .error failure after) : kind failure :=
  only session failure after run

theorem FailsOnly.elim {action : EStateM ε Session α} (never : FailsOnly (fun _ => False) action)
    {failure : ε} (run : action.run session = .error failure after) : False :=
  never.of_run run

theorem failsOnly_pure (value : α) : FailsOnly kind (pure value : EStateM ε Session α) := by
  intro session failure after run
  cases run

theorem failsOnly_throw {failure : ε} (ofKind : kind failure) :
    FailsOnly kind (throw failure : EStateM ε Session α) := by
  intro session _ after run
  cases run
  exact ofKind

theorem failsOnly_bind {action : EStateM ε Session α} {next : α → EStateM ε Session β}
    (first : FailsOnly kind action) (second : ∀ value, FailsOnly kind (next value)) :
    FailsOnly kind (action >>= next) := by
  intro session failure after run
  obtain failed | ⟨value, between, -, failed⟩ := bind_eq_error.mp run
  · exact first session failure after failed
  · exact second value between failure after failed

theorem failsOnly_get : FailsOnly kind (get : EStateM ε Session Session) := by
  intro session failure after run
  cases run

theorem failsOnly_modify (f : Session → Session) :
    FailsOnly kind (modify f : EStateM ε Session PUnit) := by
  intro session failure after run
  cases run

theorem failsOnly_forM {items : List α} {f : α → EStateM ε Session Unit}
    (each : ∀ item, FailsOnly kind (f item)) : FailsOnly kind (items.forM f) := by
  induction items with
  | nil => exact failsOnly_pure ()
  | cons item items ih => exact failsOnly_bind (each item) fun _ => ih

end FailsOnly

section FailsOnly

variable {kind : Failure → Prop}

theorem failsOnly_ofExcept {result : Except Failure α}
    (ofKind : ∀ failure, result = .error failure → kind failure) : FailsOnly kind (ofExcept result) := by
  cases result with
  | ok value => exact failsOnly_pure value
  | error failure => exact failsOnly_throw (ofKind failure rfl)

theorem failsOnly_isFile (path : Path) : FailsOnly kind (isFile path) := by
  intro session failure after run
  cases run

theorem failsOnly_isFolder (path : Path) : FailsOnly kind (isFolder path) := by
  intro session failure after run
  cases run

variable (io : ∀ path fault, kind (.io path fault))
include io

theorem failsOnly_look (path : Path) (ask : Disk → Except DiskFault α) :
    FailsOnly kind (look path ask) := by
  intro session failure after run
  cases answer : ask session.disk with
  | ok value =>
      rw [look_eq_ok.mpr ⟨answer, rfl⟩] at run
      cases run
  | error fault =>
      rw [look_of_error answer] at run
      cases run
      exact io path fault

theorem failsOnly_change (path : Path) (f : Disk → Except DiskFault Disk) :
    FailsOnly kind (change path f) :=
  failsOnly_bind (failsOnly_look io path f) fun _ => failsOnly_modify _

theorem failsOnly_createFolders (path : Path) : FailsOnly kind (createFolders path) := by
  intro session failure after run
  cases made : session.disk.createFolders path with
  | mk disk outcome =>
      cases outcome with
      | ok =>
          rw [createFolders_eq_ok.mpr ⟨disk, made, rfl⟩] at run
          cases run
      | error fault =>
          rw [createFolders_of_error made] at run
          cases run
          exact io path fault

end FailsOnly

/-! ## What actions do in two sessions -/

/-- That an action ends in the same way in two sessions and leaves them related. -/
structure AlikeIn (relation : Session → Session → Prop) (action : Action α)
    (first second : Session) : Prop where
  outcome : action.outcome first = action.outcome second
  left : relation (action.left first) (action.left second)

def Alike (relation : Session → Session → Prop) (action : Action α) : Prop :=
  ∀ first second, relation first second → AlikeIn relation action first second

section Alike

variable {relation : Session → Session → Prop} {first second : Session}

theorem outcome_of_ok {action : Action α} {value : α} (run : action.run session = .ok value after) :
    action.outcome session = .ok value := by
  rw [outcome, run]

theorem outcome_of_error {action : Action α} {failure : Failure}
    (run : action.run session = .error failure after) : action.outcome session = .error failure := by
  rw [outcome, run]

theorem outcome_bind_of_ok {action : Action α} {next : α → Action β} {value : α}
    (run : action.run session = .ok value after) :
    (action >>= next).outcome session = (next value).outcome after := by
  unfold outcome
  rw [run_bind_of_ok run]

theorem run_of_outcome_ok {action : Action α} {value : α} (same : action.outcome session = .ok value) :
    action.run session = .ok value (action.left session) := by
  unfold outcome at same
  unfold EStateM.left
  cases run : action.run session with
  | ok result after =>
      rw [run] at same
      cases same
      rfl
  | error failure after =>
      rw [run] at same
      cases same

theorem run_of_outcome_error {action : Action α} {failure : Failure}
    (same : action.outcome session = .error failure) :
    action.run session = .error failure (action.left session) := by
  unfold outcome at same
  unfold EStateM.left
  cases run : action.run session with
  | ok result after =>
      rw [run] at same
      cases same
  | error failure after =>
      rw [run] at same
      cases same
      rfl

theorem alikeIn_pure (related : relation first second) (value : α) :
    AlikeIn relation (pure value) first second :=
  ⟨rfl, related⟩

theorem alikeIn_throw (related : relation first second) (failure : Failure) :
    AlikeIn relation (throw failure : Action α) first second :=
  ⟨rfl, related⟩

theorem alikeIn_ofExcept (related : relation first second) (result : Except Failure α) :
    AlikeIn relation (ofExcept result) first second := by
  cases result with
  | ok value => exact alikeIn_pure related value
  | error failure => exact alikeIn_throw related failure

theorem AlikeIn.bind {action : Action α} {next : α → Action β}
    (alike : AlikeIn relation action first second)
    (onward : ∀ value, action.run first = .ok value (action.left first) →
      AlikeIn relation (next value) (action.left first) (action.left second)) :
    AlikeIn relation (action >>= next) first second := by
  have same := alike.outcome
  cases ended : action.outcome first with
  | error failure =>
      have firstRun := run_of_outcome_error ended
      have secondRun := run_of_outcome_error (same ▸ ended)
      refine ⟨?_, ?_⟩
      · rw [outcome_of_error (run_bind_of_error firstRun),
          outcome_of_error (run_bind_of_error secondRun)]
      · rw [left_bind_of_error firstRun, left_bind_of_error secondRun]
        exact alike.left
  | ok value =>
      have firstRun := run_of_outcome_ok ended
      have secondRun := run_of_outcome_ok (same ▸ ended)
      obtain ⟨outcomes, related⟩ := onward value firstRun
      refine ⟨?_, ?_⟩
      · rwa [outcome_bind_of_ok firstRun, outcome_bind_of_ok secondRun]
      · rwa [left_bind_of_ok firstRun, left_bind_of_ok secondRun]

theorem AlikeIn.throwUnless {check : Action Bool} {failure : Failure} {rest : Action α}
    (checking : AlikeIn relation check first second)
    (going : AlikeIn relation rest (check.left first) (check.left second)) :
    AlikeIn relation (do
      if !(← check) then throw failure
      rest : Action α) first second := by
  refine checking.bind ?_
  intro answer _
  cases answer with
  | false => exact alikeIn_throw checking.left failure
  | true => exact going

theorem AlikeIn.throwIf {check : Action Bool} {failure : Failure} {rest : Action α}
    (checking : AlikeIn relation check first second)
    (going : AlikeIn relation rest (check.left first) (check.left second)) :
    AlikeIn relation (do
      if ← check then throw failure
      rest : Action α) first second := by
  refine checking.bind ?_
  intro answer _
  cases answer with
  | false => exact going
  | true => exact alikeIn_throw checking.left failure

theorem alikeIn_attempt {action : Action α} (alike : AlikeIn relation action first second) :
    AlikeIn relation (attempt action) first second := by
  refine ⟨?_, ?_⟩
  · rw [outcome_of_ok (attempt_run action first), outcome_of_ok (attempt_run action second),
      alike.outcome]
  · rw [left_of_ok (attempt_run action first), left_of_ok (attempt_run action second)]
    exact alike.left

theorem alikeIn_look {ask : Disk → Except DiskFault α} (related : relation first second)
    (same : ask first.disk = ask second.disk) : AlikeIn relation (look path ask) first second := by
  cases answer : ask first.disk with
  | ok value =>
      have firstRun : (look path ask).run first = .ok value first := look_eq_ok.mpr ⟨answer, rfl⟩
      have secondRun : (look path ask).run second = .ok value second :=
        look_eq_ok.mpr ⟨same ▸ answer, rfl⟩
      refine ⟨?_, ?_⟩
      · rw [outcome_of_ok firstRun, outcome_of_ok secondRun]
      · rwa [left_of_ok firstRun, left_of_ok secondRun]
  | error fault =>
      have firstRun : (look path ask).run first = .error (.io path fault) first :=
        look_of_error answer
      have secondRun : (look path ask).run second = .error (.io path fault) second :=
        look_of_error (same ▸ answer)
      refine ⟨?_, ?_⟩
      · rw [outcome_of_error firstRun, outcome_of_error secondRun]
      · rwa [left_of_error firstRun, left_of_error secondRun]

theorem alikeIn_isFile (related : relation first second)
    (same : first.disk.isFile path = second.disk.isFile path) :
    AlikeIn relation (isFile path) first second :=
  ⟨congrArg Except.ok same, related⟩

theorem alikeIn_isFolder (related : relation first second)
    (same : first.disk.isFolder path = second.disk.isFolder path) :
    AlikeIn relation (isFolder path) first second :=
  ⟨congrArg Except.ok same, related⟩

theorem alike_forM {items : List α} {f : α → Action Unit}
    (each : ∀ item ∈ items, Alike relation (f item)) : Alike relation (items.forM f) := by
  induction items with
  | nil => exact fun _ _ related => alikeIn_pure related ()
  | cons item items ih =>
      obtain ⟨once, rest⟩ := List.forall_mem_cons.mp each
      intro first second related
      have alike := once first second related
      exact alike.bind fun _ _ => ih rest _ _ alike.left

end Alike

end Action
end Cookbook
