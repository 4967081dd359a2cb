import BlockScript.Proofs.Command.Attempt
import BlockScript.Proofs.Command.Stepping

/-!
# Showing steps on a host

A console can refuse a line, and the state of an engine can fail to have one. Stepping
raises a fault exactly if this happens at one of its steps, whichever comes first, and
otherwise makes the steps of the engine up to its limit. Once the engine has stopped,
the limit does not matter.
-/

set_option autoImplicit false

namespace BlockScript.Command

/-- How an attempt ends with certain faults in its way: it raises one of them if there
is one, and comes to its end if not. -/
inductive Exactly {α : Type} (p : Raised → Prop) : EStateM.Result Raised World α → Prop
  | ok {a : α} {world : World} : (∀ raised, ¬ p raised) → Exactly p (.ok a world)
  | error {raised : Raised} {world : World} : p raised → Exactly p (.error raised world)

namespace Exactly

variable {α β ε : Type} {p q : Raised → Prop} {x : Attempt α} {next : α → Attempt β}
  {world : World}

theorem weaken {result : EStateM.Result Raised World α} (h : Exactly p result)
    (hpq : ∀ raised, p raised → q raised) (hqp : ∀ raised, q raised → ∃ raised', p raised') :
    Exactly q result := by
  cases h with
  | ok hn =>
    refine .ok fun raised hq => ?_
    obtain ⟨raised', hp⟩ := hqp raised hq
    exact hn raised' hp
  | error hp => exact .error (hpq _ hp)

theorem exists_error {result : EStateM.Result Raised World α} (h : Exactly p result)
    {raised : Raised} (hp : p raised) :
    ∃ raised' world', result = .error raised' world' ∧ p raised' := by
  cases h with
  | ok hn => exact absurd hp (hn raised)
  | error hp => exact ⟨_, _, rfl, hp⟩

theorem bind (hx : Exactly p (x world))
    (hn : ∀ a world', x world = .ok a world' → Exactly q (next a world')) :
    Exactly (fun raised => p raised ∨ q raised) ((x >>= next) world) := by
  cases hr : x world with
  | error raised world' =>
    rw [hr] at hx
    cases hx with
    | error hp =>
      rw [Attempt.bind_of_error hr]
      exact .error (.inl hp)
  | ok a world' =>
    rw [hr] at hx
    cases hx with
    | ok hp =>
      rw [Attempt.bind_of_ok hr]
      exact (hn a world' hr).weaken (fun _ => .inr) fun raised h =>
        ⟨raised, h.resolve_left (hp raised)⟩

theorem followed (hx : Exactly p (x world))
    (hn : ∀ a world', ∃ b world'', next a world' = .ok b world'') :
    Exactly p ((x >>= next) world) := by
  have hnone : ∀ a world', x world = .ok a world' → Exactly (fun _ => False) (next a world') := by
    intro a world' _
    obtain ⟨b, world'', hb⟩ := hn a world'
    rw [hb]
    exact .ok fun _ => id
  refine (hx.bind hnone).weaken ?_ ?_
  · exact fun _ h => h.resolve_right id
  · exact fun raised h => ⟨raised, .inl h⟩

theorem of (raise : ε → Raised) (y : Except ε α) :
    Exactly (fun raised => ∃ fault, y = .error fault ∧ raised = raise fault)
      (Attempt.of raise y world) := by
  cases y with
  | ok a => exact .ok nofun
  | error fault => exact .error ⟨fault, rfl, rfl⟩

theorem forM {f : β → Attempt Unit} {p : β → Raised → Prop}
    (hf : ∀ b world, Exactly (p b) (f b world)) (bs : List β) (world : World) :
    Exactly (fun raised => ∃ b ∈ bs, p b raised) (bs.forM f world) := by
  induction bs generalizing world with
  | nil => exact .ok nofun
  | cons b bs ih =>
    change Exactly _ ((f b >>= fun _ => bs.forM f) world)
    refine (bind (hf b world) fun _ world' _ => ih world').weaken ?_ ?_
    · rintro raised (h | ⟨c, hc, h⟩)
      · exact ⟨b, List.mem_cons_self, h⟩
      · exact ⟨c, List.mem_cons_of_mem _ hc, h⟩
    · rintro raised ⟨c, hc, h⟩
      refine ⟨raised, ?_⟩
      rcases List.mem_cons.1 hc with rfl | hc
      · exact .inl h
      · exact .inr ⟨c, hc, h⟩

end Exactly

section Steps

variable {host : Host} {json : Bool} {limit shown : Nat} {e e' : Engine} {world world' : World}
  {raised : Raised}

def Refuses (host : Host) (text : String) (raised : Raised) : Prop :=
  ∃ reason, host.console text = .error reason ∧ raised = .encoding reason

theorem exactly_display (add : Report → String → Report) (text : String) (world : World) :
    Exactly (Refuses host text) (display host add text world) :=
  (Exactly.of .encoding (host.console text)).followed fun _ _ => ⟨_, _, rfl⟩

inductive ShowFails (host : Host) (json : Bool) (e : Engine) : Raised → Prop
  | lines {fault : Fault} : stepLines json e.store.console.size e.step = .error fault →
      ShowFails host json e (.value fault)
  | print {lines : List String} {line reason : String} :
      stepLines json e.store.console.size e.step = .ok lines → line ∈ lines →
      host.console (host.line json line) = .error reason →
      ShowFails host json e (.encoding reason)

theorem onlyFails_stepLines (json : Bool) (shown : Nat) (e : Engine) :
    Except.OnlyFails (· = .tooManyDigits) (stepLines json shown e) := by
  cases json with
  | false => exact Except.onlyFails_ok _
  | true =>
    exact (onlyFails_stateRecord e).bind fun _ _ =>
      (Json.onlyFails_writeAt 0 _).bind fun _ _ => Except.onlyFails_ok _

theorem faultClass_of_tooManyDigits {fault : Fault} (h : fault = .tooManyDigits) :
    (Raised.value fault).faultClass = .value := by
  subst h
  rfl

theorem ShowFails.faultClass (h : ShowFails host json e raised) : raised.faultClass = .value := by
  cases h with
  | lines hl => exact faultClass_of_tooManyDigits (onlyFails_stepLines _ _ _ _ hl)
  | print => rfl

def RunFails (host : Host) (json : Bool) (limit : Nat) (e : Engine) (raised : Raised) : Prop :=
  ∃ k < limit, (e.runFor k).isTerminal = false ∧ ShowFails host json (e.runFor k) raised

theorem RunFails.faultClass (h : RunFails host json limit e raised) :
    raised.faultClass = .value := by
  obtain ⟨k, -, -, hs⟩ := h
  exact hs.faultClass

theorem not_runFails_of_terminal (ha : e.isTerminal = true) :
    ¬ RunFails host json limit e raised := by
  rintro ⟨k, -, hk, -⟩
  rw [Engine.runFor_of_terminal k e ha, ha] at hk
  cases hk

theorem runFails_succ_iff (ha : e.isTerminal = false) :
    RunFails host json (limit + 1) e raised ↔
      ShowFails host json e raised ∨ RunFails host json limit e.step raised := by
  constructor
  · rintro ⟨k, hk, hr, hs⟩
    cases k with
    | zero => exact .inl hs
    | succ k =>
      rw [Engine.runFor_succ ha] at hr hs
      exact .inr ⟨k, Nat.lt_of_succ_lt_succ hk, hr, hs⟩
  · rintro (hs | ⟨k, hk, hr, hs⟩)
    · exact ⟨0, Nat.succ_pos _, ha, hs⟩
    · refine ⟨k + 1, Nat.succ_lt_succ hk, ?_, ?_⟩
      · rwa [Engine.runFor_succ ha]
      · rwa [Engine.runFor_succ ha]

theorem exactly_attemptSteps (host : Host) (json : Bool) (limit : Nat) (e : Engine)
    (world : World) :
    Exactly (RunFails host json limit e)
      (attemptSteps host json limit e.store.console.size e world) := by
  induction limit generalizing e world with
  | zero => exact .ok nofun
  | succ limit ih =>
    rw [attemptSteps]
    cases ha : e.isTerminal with
    | true => exact .ok fun _ => not_runFails_of_terminal ha
    | false =>
      rw [if_neg Bool.false_ne_true, Attempt.bind_modify]
      cases hl : stepLines json e.store.console.size e.step with
      | error fault =>
        rw [Attempt.bind_of_error (Attempt.of_error _ rfl)]
        exact .error ((runFails_succ_iff ha).2 (.inl (.lines hl)))
      | ok lines =>
        rw [Attempt.bind_of_ok (Attempt.of_ok _ rfl)]
        refine ((Exactly.forM (fun _ => exactly_display .print _) lines _).bind
          fun _ world' _ => ih e.step world').weaken ?_ ?_
        · rintro raised (⟨line, hm, reason, hr, rfl⟩ | h)
          · exact (runFails_succ_iff ha).2 (.inl (.print hl hm hr))
          · exact (runFails_succ_iff ha).2 (.inr h)
        · intro raised h
          refine ⟨raised, ((runFails_succ_iff ha).1 h).imp_left fun h => ?_⟩
          cases h with
          | lines hf =>
            rw [hl] at hf
            cases hf
          | @print _ line reason hf hm hr =>
            rw [hl] at hf
            cases hf
            exact ⟨line, hm, reason, hr, rfl⟩

theorem eq_runFor_of_attemptSteps
    (h : attemptSteps host json limit shown e world = .ok e' world') : e' = e.runFor limit := by
  induction limit generalizing shown e world with
  | zero =>
    cases h
    rfl
  | succ limit ih =>
    rw [attemptSteps] at h
    cases ha : e.isTerminal with
    | true =>
      rw [ha] at h
      cases h
      exact (Engine.runFor_of_terminal _ _ ha).symm
    | false =>
      rw [ha, if_neg Bool.false_ne_true, Attempt.bind_modify] at h
      obtain ⟨lines, world₁, -, h⟩ := Attempt.exists_of_bind_eq_ok h
      obtain ⟨_, world₂, -, h⟩ := Attempt.exists_of_bind_eq_ok h
      rw [Engine.runFor_succ ha]
      exact ih h

theorem attemptSteps_of_le {n : Nat} (ht : (e.runFor n).isTerminal = true) (hl : n ≤ limit)
    (shown : Nat) : attemptSteps host json limit shown e = attemptSteps host json n shown e := by
  induction n generalizing limit shown e with
  | zero =>
    have ha : e.isTerminal = true := ht
    cases limit with
    | zero => rfl
    | succ limit => exact if_pos ha
  | succ n ih =>
    obtain ⟨limit, rfl⟩ := Nat.exists_eq_add_of_le' hl
    rw [← Nat.add_assoc, attemptSteps, attemptSteps]
    cases ha : e.isTerminal with
    | true => rfl
    | false =>
      rw [Engine.runFor_succ ha] at ht
      rw [ih ht (Nat.le_add_left n limit)]

inductive ListingFails (host : Host) (e : Engine) : Raised → Prop
  | line {fault : Fault} : variablesLine e = .error fault → ListingFails host e (.value fault)
  | print {line reason : String} : variablesLine e = .ok line →
      host.console line = .error reason → ListingFails host e (.encoding reason)

theorem ListingFails.faultClass (h : ListingFails host e raised) :
    raised.faultClass = .value := by
  cases h with
  | line hl => exact faultClass_of_tooManyDigits (onlyFails_variablesLine _ _ hl)
  | print => rfl

theorem exactly_attemptListing (host : Host) (e : Engine) (world : World) :
    Exactly (ListingFails host e) (attemptListing host e world) := by
  unfold attemptListing
  cases hv : variablesLine e with
  | error fault =>
    rw [Attempt.bind_of_error (Attempt.of_error _ rfl)]
    exact .error (.line hv)
  | ok line =>
    rw [Attempt.bind_of_ok (Attempt.of_ok _ rfl)]
    refine (exactly_display .print line world).weaken ?_ ?_
    · rintro raised ⟨reason, hr, rfl⟩
      exact .print hv hr
    · intro raised h
      cases h with
      | line hf =>
        rw [hv] at hf
        cases hf
      | @print _ reason hf hr =>
        rw [hv] at hf
        cases hf
        exact ⟨_, reason, hr, rfl⟩

inductive StepFails (host : Host) (json : Bool) (limit : Nat) (program : Program) : Raised → Prop
  | run {raised : Raised} : RunFails host json limit (.start program) raised →
      StepFails host json limit program raised
  | listing {raised : Raised} : json = false →
      ListingFails host ((Engine.start program).runFor limit) raised →
      StepFails host json limit program raised

theorem StepFails.faultClass {program : Program} (h : StepFails host json limit program raised) :
    raised.faultClass = .value := by
  cases h with
  | run h => exact h.faultClass
  | listing _ h => exact h.faultClass

theorem exactly_attemptStep (host : Host) (json : Bool) (limit : Nat) (program : Program)
    (world : World) :
    Exactly (StepFails host json limit program)
      (attemptStep host json limit program world) := by
  have hsteps : Exactly (RunFails host json limit (.start program))
      (attemptSteps host json limit 0 (.start program) world) :=
    exactly_attemptSteps host json limit (.start program) world
  have hrest : ∀ e world', attemptSteps host json limit 0 (.start program) world = .ok e world' →
      Exactly (fun raised => json = false ∧
          ListingFails host ((Engine.start program).runFor limit) raised)
        ((if json then pure (Return.ofEngine e) else do
          attemptListing host e
          return Return.ofEngine e : Attempt Return) world') := by
    intro e world' he
    obtain rfl := eq_runFor_of_attemptSteps he
    cases json with
    | true => exact .ok fun _ h => Bool.noConfusion h.1
    | false =>
      refine ((exactly_attemptListing host _ world').followed
        fun _ _ => ⟨_, _, rfl⟩).weaken ?_ ?_
      · exact fun raised h => ⟨rfl, h⟩
      · exact fun raised h => ⟨raised, h.2⟩
  refine (hsteps.bind hrest).weaken ?_ ?_
  · rintro raised (h | ⟨hj, h⟩)
    · exact .run h
    · exact .listing hj h
  · intro raised h
    cases h with
    | run h => exact ⟨raised, .inl h⟩
    | listing hj h => exact ⟨raised, .inr ⟨hj, h⟩⟩

theorem attemptStep_of_le {program : Program} {n : Nat}
    (ht : ((Engine.start program).runFor n).isTerminal = true) (hl : n ≤ limit) :
    attemptStep host json limit program = attemptStep host json n program := by
  unfold attemptStep
  rw [attemptSteps_of_le ht hl]

end Steps

end BlockScript.Command
