import UnrealDecl.Proofs.Conversion.Atomicity

namespace UnrealDecl

namespace Event

/-- Whether an event has a level and a message. -/
def reads (level : Level) (message : Text) (e : Event) : Bool :=
  e.level = level && e.message = message

def isRefusal (e : Event) : Bool :=
  e.level = .warn && ("skipping declaration: " : Text).isPrefixOf e.message

def isOrphaning (e : Event) : Bool :=
  e.reads .warn "variable outside of a class section"

def isFiling (e : Event) : Bool :=
  e.reads .debug "enum" || e.reads .debug "variable"

def isOutcome (e : Event) : Bool :=
  e.isRefusal || e.isOrphaning || e.isFiling

def isForeign (e : Event) : Bool :=
  e.reads .warn "unrecognized modifier token"

def isEngineFlag (e : Event) : Bool :=
  e.reads .trace "parameter flag on a member declaration" ||
    e.reads .debug "flag has no UnrealScript modifier"

/-- What the events of a conversion are counted as. -/
inductive Topic
  | refusal | orphaning | filing | foreign | flag
deriving DecidableEq

def topic? : Event → Option Topic
  | rejected .. => some .refusal
  | orphan .. => some .orphaning
  | filedEnumeration .. | filedVariable .. => some .filing
  | foreignToken .. => some .foreign
  | parameterFlag .. | plainFlag .. => some .flag
  | scanned .. | skipsApplied .. | wrote .. | finished .. => none

section Topic

variable (e : Event)

theorem isRefusal_eq : e.isRefusal = decide (e.topic? = some .refusal) := by
  cases e <;> rfl

theorem isOrphaning_eq : e.isOrphaning = decide (e.topic? = some .orphaning) := by
  cases e <;> rfl

theorem isFiling_eq : e.isFiling = decide (e.topic? = some .filing) := by
  cases e <;> rfl

theorem isForeign_eq : e.isForeign = decide (e.topic? = some .foreign) := by
  cases e <;> rfl

theorem isEngineFlag_eq : e.isEngineFlag = decide (e.topic? = some .flag) := by
  cases e <;> rfl

end Topic

def count (topic : Topic) (log : List Event) : Nat :=
  log.countP fun e => e.topic? = some topic

theorem count_append (topic : Topic) (log more : List Event) :
    count topic (log ++ more) = count topic log + count topic more :=
  List.countP_append

theorem topic?_event (token : Text) :
    (TokenTally.event token).topic? =
      some (if (PropertyFlag.bit? token).isSome then .flag else .foreign) := by
  rw [TokenTally.event]
  cases PropertyFlag.bit? token with
  | none => rfl
  | some bit =>
    dsimp only
    split <;> rfl

end Event

namespace Session

/-- From one session to another, each counter went up by the events of a log that are counted
there. -/
structure Logged (s t : Session) (log : List Event) : Prop where
  refused : t.fragments.invalid + t.fragments.unsupported =
    s.fragments.invalid + s.fragments.unsupported + Event.count .refusal log
  orphaned : t.fragments.orphaned = s.fragments.orphaned + Event.count .orphaning log
  converted : t.fragments.converted = s.fragments.converted + Event.count .filing log
  foreign : t.tokens.foreign = s.tokens.foreign + Event.count .foreign log
  engine : t.tokens.engine = s.tokens.engine + Event.count .flag log

namespace Logged

variable {s t u : Session} {log more : List Event}

theorem refl (s : Session) : s.Logged s [] :=
  ⟨rfl, rfl, rfl, rfl, rfl⟩

theorem append (h : s.Logged t log) (h' : t.Logged u more) : s.Logged u (log ++ more) := by
  constructor
  · rw [h'.refused, h.refused, Event.count_append, Nat.add_assoc]
  · rw [h'.orphaned, h.orphaned, Event.count_append, Nat.add_assoc]
  · rw [h'.converted, h.converted, Event.count_append, Nat.add_assoc]
  · rw [h'.foreign, h.foreign, Event.count_append, Nat.add_assoc]
  · rw [h'.engine, h.engine, Event.count_append, Nat.add_assoc]

end Logged

theorem logged_push (s : Session) (token : Text) :
    s.Logged { s with tokens := s.tokens.push token } [TokenTally.event token] := by
  have htopic := Event.topic?_event token
  cases hbit : PropertyFlag.bit? token with
  | none =>
    rw [hbit] at htopic
    constructor <;> simp [TokenTally.push, hbit, Event.count, htopic]
  | some bit =>
    rw [hbit] at htopic
    constructor <;> simp [TokenTally.push, hbit, Event.count, htopic]

theorem logged_pushAll (s : Session) (tokens : List Text) :
    s.Logged { s with tokens := s.tokens.pushAll tokens } (tokens.map TokenTally.event) := by
  induction tokens generalizing s with
  | nil => exact .refl s
  | cons token tokens ih => exact (s.logged_push token).append (ih _)

theorem logged_add (s : Session) (f : Fragment) : s.Logged (s.add f).1 (s.add f).2 := by
  have htokens := s.logged_pushAll f.read.unknown
  rcases f.read_cases with ⟨e, hr⟩ | ⟨v, hr, ho⟩ | ⟨v, owner, hr, ho⟩ | ⟨e, hr⟩
  · rw [s.add_of_error hr, FragmentTally.reject_eq]
    split
    · exact ⟨rfl, rfl, rfl, rfl, rfl⟩
    · exact ⟨Nat.add_right_comm _ _ _, rfl, rfl, rfl, rfl⟩
  · rw [s.add_of_orphan hr ho]
    exact htokens.append ⟨rfl, rfl, rfl, rfl, rfl⟩
  · rw [s.add_of_member hr ho]
    exact htokens.append ⟨rfl, rfl, rfl, rfl, rfl⟩
  · rw [s.add_of_enumeration hr]
    exact ⟨rfl, rfl, rfl, rfl, rfl⟩

theorem logged_addAll (s : Session) (fs : List Fragment) :
    s.Logged (s.addAll fs).1 (s.addAll fs).2 := by
  induction fs generalizing s with
  | nil => exact .refl s
  | cons f fs ih => exact (s.logged_add f).append (ih _)

/-- A fragment is told by the tokens on it, and then by what became of it. -/
theorem exists_events_add (f : Fragment) :
    ∃ last : Event, (∀ s : Session, (s.add f).2 = f.read.unknown.map TokenTally.event ++ [last]) ∧
      (last.topic? = some .refusal ∧ f.read.unknown = [] ∨
        last.topic? = some .orphaning ∨ last.topic? = some .filing) := by
  rcases f.read_cases with ⟨e, hr⟩ | ⟨v, hr, ho⟩ | ⟨v, owner, hr, ho⟩ | ⟨e, hr⟩
  · have hnone := Fragment.unknown_of_error hr
    refine ⟨.rejected f.line e, fun s => ?_, .inl ⟨rfl, hnone⟩⟩
    rw [s.add_of_error hr, hnone]
    rfl
  · refine ⟨.orphan f.line v.name, fun s => ?_, .inr (.inl rfl)⟩
    rw [s.add_of_orphan hr ho]
  · refine ⟨.filedVariable owner v.name, fun s => ?_, .inr (.inr rfl)⟩
    rw [s.add_of_member hr ho]
  · refine ⟨.filedEnumeration e.qualifier.owner e.name, fun s => ?_, .inr (.inr rfl)⟩
    rw [s.add_of_enumeration hr, Fragment.unknown_of_enumeration hr]
    rfl

theorem events_addAll (s : Session) (fs : List Fragment) :
    (s.addAll fs).2 = fs.flatMap fun f => (({} : Session).add f).2 := by
  induction fs generalizing s with
  | nil => rfl
  | cons f fs ih =>
    obtain ⟨last, htold, -⟩ := exists_events_add f
    rw [addAll_cons, ih, List.flatMap_cons, htold, htold]

end Session

/-- The log of a conversion has as many events of each sort as were counted. It tells one fragment
after the other, the tokens first and then what became of it. -/
theorem log_counts (fs : List Fragment) :
    let s := (({} : Session).addAll fs).1
    let log := (({} : Session).addAll fs).2
    log.countP Event.isRefusal = s.fragments.invalid + s.fragments.unsupported ∧
      log.countP Event.isOrphaning = s.fragments.orphaned ∧
      log.countP Event.isFiling = s.fragments.converted ∧
      log.countP Event.isForeign = s.tokens.foreign ∧
      log.countP Event.isEngineFlag = s.tokens.engine ∧
      log = fs.flatMap (fun f => (({} : Session).add f).2) ∧
      ∀ f : Fragment, ∃ notices last, (({} : Session).add f).2 = notices ++ [last] ∧
        (∀ e ∈ notices, (e.isForeign || e.isEngineFlag) = true ∧ e.isOutcome = false) ∧
        last.isOutcome = true ∧ (last.isRefusal = true → notices = []) := by
  intro s log
  have h : Session.Logged {} s log := ({} : Session).logged_addAll fs
  have hcount : ∀ {p : Event → Bool} {topic : Event.Topic},
      (∀ e, p e = decide (e.topic? = some topic)) → log.countP p = Event.count topic log :=
    fun hp => congrArg (log.countP ·) (funext hp)
  refine ⟨?_, ?_, ?_, ?_, ?_, Session.events_addAll {} fs, fun f => ?_⟩
  · rw [hcount Event.isRefusal_eq, h.refused]
    exact (Nat.zero_add _).symm
  · rw [hcount Event.isOrphaning_eq, h.orphaned]
    exact (Nat.zero_add _).symm
  · rw [hcount Event.isFiling_eq, h.converted]
    exact (Nat.zero_add _).symm
  · rw [hcount Event.isForeign_eq, h.foreign]
    exact (Nat.zero_add _).symm
  · rw [hcount Event.isEngineFlag_eq, h.engine]
    exact (Nat.zero_add _).symm
  · obtain ⟨last, htold, hlast⟩ := Session.exists_events_add f
    refine ⟨_, last, htold {}, ?_, ?_, ?_⟩
    · intro e he
      obtain ⟨token, -, rfl⟩ := List.mem_map.1 he
      have htopic := Event.topic?_event token
      simp only [Event.isOutcome, Event.isRefusal_eq, Event.isOrphaning_eq, Event.isFiling_eq,
        Event.isForeign_eq, Event.isEngineFlag_eq, htopic]
      split <;> exact ⟨rfl, rfl⟩
    · simp only [Event.isOutcome, Event.isRefusal_eq, Event.isOrphaning_eq, Event.isFiling_eq]
      rcases hlast with ⟨h, -⟩ | h | h <;> rw [h] <;> rfl
    · intro hrefusal
      rw [Event.isRefusal_eq, decide_eq_true_eq] at hrefusal
      rcases hlast with ⟨-, hu⟩ | h | h
      · rw [hu]
        rfl
      · rw [h] at hrefusal
        cases hrefusal
      · rw [h] at hrefusal
        cases hrefusal

def slotFragments : List Fragment :=
  [Session.slotFragment (some ⟨"Core", "Object"⟩), Session.delegateFragment,
    Session.slotFragment none, Session.axisFragment]

theorem log_counts_slot :
    let log := (({} : Session).addAll slotFragments).2
    log.countP Event.isRefusal = 1 ∧ log.countP Event.isOrphaning = 1 ∧
      log.countP Event.isFiling = 2 ∧ log.countP Event.isForeign = 4 ∧
      log.countP Event.isEngineFlag = 0 ∧
      (({} : Session).add Session.delegateFragment).2.length = 1 := by
  intro log
  have hcounters : (({} : Session).addAll slotFragments).1.fragments = ⟨2, 0, 1, 1⟩ ∧
      (({} : Session).addAll slotFragments).1.tokens = ⟨0, 4⟩ := by
    decide +kernel
  have hrefused : (({} : Session).add Session.delegateFragment).2.getLast?.any
      Event.isRefusal = true := by
    decide +kernel
  obtain ⟨hrefusal, horphan, hfiled, hforeign, hengine, -, hparts⟩ := log_counts slotFragments
  rw [hcounters.1] at hrefusal horphan hfiled
  rw [hcounters.2] at hforeign hengine
  obtain ⟨notices, last, htold, -, -, hnone⟩ := hparts Session.delegateFragment
  rw [htold, List.getLast?_concat] at hrefused
  refine ⟨hrefusal, horphan, hfiled, hforeign, hengine, ?_⟩
  rw [htold, hnone hrefused]
  rfl

end UnrealDecl
