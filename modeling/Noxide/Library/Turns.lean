import Noxide.Library.Transition

/-!
# Taking turns

A system serves at most one client at each step.  It is fair when no client is served twice
while another waits that was not served in between.  Fairness follows from a relation
"behind": a service puts the others behind the client, steps that pass over a client leave it
behind, and a client is not served again before one that is behind it and waits.

A tally is the usual source of that relation.  Each service takes a new stamp from a counter,
and the client with the oldest stamp is served first.

Main results:

- Theorem {lit}`Turns.fair_of_behind`: fairness from such a relation.
- Theorem {lit}`Turns.Stamping.fair`: fairness where the oldest stamp is served first.
- Theorem {lit}`Turns.Stamping.stamps_rise`: stamps never repeat.
-/

/-- Labelled steps, of which each may serve one client. -/
structure Turns (Label State Client : Type) where
  initial : State → Prop
  step : Label → State → State → Prop
  serves : Label → State → Option Client

/-- A counter and the latest stamp of each client that has one. -/
structure Tally (Client : Type) where
  counter : Int
  stamp : Client → Option Int

namespace Turns

variable {Label State Client : Type} (turns : Turns Label State Client)

def system : System State where
  initial := turns.initial
  step state next := ∃ label, turns.step label state next

/-- Any number of steps that do not serve the client, from states that satisfy a condition. -/
def Passing (client : Client) (kept : State → Prop) : State → State → Prop :=
  Relation.ReflTransGen fun state next =>
    kept state ∧ ∃ label, turns.serves label state ≠ some client ∧ turns.step label state next

/-- No client is served twice while another, which is kept throughout and waits at the second
service, was not served in between. -/
def Fair (kept : State → Client → Prop) (waits : Label → State → Client → Prop) : Prop :=
  ∀ before after later last first second client other,
    turns.system.Reachable before → turns.step first before after →
    turns.serves first before = some client → kept before other → other ≠ client →
    turns.Passing other (fun state => kept state other) after later →
    turns.step second later last → turns.serves second later = some client →
    ¬ waits second later other

variable {turns}

theorem Passing.run {client : Client} {kept : State → Prop} {state later : State}
    (h : turns.Passing client kept state later) : turns.system.Run state later := by
  induction h with
  | refl => exact System.Run.refl _
  | tail _ last ih =>
      rcases last with ⟨_, label, _, step⟩
      exact ih.tail ⟨label, step⟩

theorem fair_of_behind {kept : State → Client → Prop} {waits : Label → State → Client → Prop}
    (behind : State → Client → Client → Prop)
    (served : ∀ state next label client other, turns.system.Reachable state →
      turns.step label state next → turns.serves label state = some client →
      kept state other → other ≠ client → behind next other client)
    (passed : ∀ state next label client other, turns.system.Reachable state →
      turns.step label state next → turns.serves label state ≠ some other →
      kept state other → behind state other client → behind next other client)
    (first : ∀ state next label client other, turns.system.Reachable state →
      turns.step label state next → turns.serves label state = some client →
      behind state other client → ¬ waits label state other) :
    turns.Fair kept waits := by
  intro before after later last one two client other reachable step serves here different passing
    step' serves'
  have start : turns.system.Reachable after := reachable.next ⟨one, step⟩
  have still : behind later other client := by
    clear step' serves'
    induction passing with
    | refl => exact served before after one client other reachable step serves here different
    | tail path last ih =>
        rcases last with ⟨waiting, label, others, step⟩
        exact passed _ _ label client other (start.run (Passing.run path)) step others waiting ih
  exact first later last two client other (start.run passing.run) step' serves' still

end Turns

/-! ## Tallies -/

namespace Tally

variable {Client : Type} {l l' : Tally Client}

/-- No stamp is ahead of the counter. -/
structure Sound (l : Tally Client) : Prop where
  counter : 0 ≤ l.counter
  stamps : ∀ client stamp, l.stamp client = some stamp → stamp ≤ l.counter

/-- A step stamps the client it serves with a new count; the others keep their stamps, and a
new client starts at zero. -/
structure Evolves (served : Option Client) (l l' : Tally Client) : Prop where
  counter : l.counter ≤ l'.counter
  stamped : ∀ client, served = some client → l.counter < l'.counter ∧ l'.stamp client = some l'.counter
  unserved : ∀ client, served ≠ some client →
    l'.stamp client = l.stamp client ∨ l.stamp client = none ∧ l'.stamp client = some 0

/-- The other has no stamp or an older one. -/
def Behind (l : Tally Client) (other client : Client) : Prop :=
  ∃ latest, l.stamp client = some latest ∧ 0 < latest
    ∧ ∀ stamp, l.stamp other = some stamp → stamp < latest

theorem Evolves.refl (l : Tally Client) : Evolves none l l :=
  ⟨Int.le_refl _, fun _ idle => (by cases idle), fun _ _ => Or.inl rfl⟩

/-- Steps that serve nobody are one such step. -/
theorem Evolves.trans {l'' : Tally Client} (first : Evolves none l l') (second : Evolves none l' l'') :
    Evolves none l l'' := by
  refine ⟨Int.le_trans first.counter second.counter, fun _ idle => (by cases idle), fun client idle => ?_⟩
  rcases first.unserved client idle with same | ⟨absent, zero⟩
  · rcases second.unserved client idle with same' | ⟨absent', zero'⟩
    · exact Or.inl (same'.trans same)
    · exact Or.inr ⟨same ▸ absent', zero'⟩
  · rcases second.unserved client idle with same' | ⟨absent', _⟩
    · exact Or.inr ⟨absent, same'.trans zero⟩
    · rw [zero] at absent'
      cases absent'

theorem Evolves.isSome {served : Option Client} {client : Client} (h : Evolves served l l')
    (here : (l.stamp client).isSome = true) : (l'.stamp client).isSome = true := by
  by_cases chosen : served = some client
  · rw [(h.stamped client chosen).2]
    rfl
  · rcases h.unserved client chosen with same | ⟨absent, _⟩
    · rw [same]
      exact here
    · rw [absent] at here
      cases here

theorem Sound.evolves {served : Option Client} (sound : Sound l) (h : Evolves served l l') : Sound l' := by
  have counter := h.counter
  have start := sound.counter
  refine ⟨by omega, fun client stamp here => ?_⟩
  by_cases chosen : served = some client
  · rw [(h.stamped client chosen).2] at here
    cases here
    exact Int.le_refl _
  · rcases h.unserved client chosen with same | ⟨_, zero⟩
    · rw [same] at here
      exact Int.le_trans (sound.stamps client stamp here) counter
    · rw [zero] at here
      cases here
      omega

/-- A service puts every other client behind. -/
theorem Evolves.behind {client other : Client} (h : Evolves (some client) l l') (sound : Sound l)
    (different : other ≠ client) : Behind l' other client := by
  have start := sound.counter
  rcases h.stamped client rfl with ⟨later, stamped⟩
  refine ⟨l'.counter, stamped, by omega, fun stamp here => ?_⟩
  rcases h.unserved other (fun same => different (Option.some.inj same).symm) with same | ⟨_, zero⟩
  · rw [same] at here
    have old := sound.stamps other stamp here
    omega
  · rw [zero] at here
    cases here
    omega

/-- A client that is passed over stays behind. -/
theorem Behind.passed {served : Option Client} {client other : Client} (h : Behind l other client)
    (sound : Sound l) (evolves : Evolves served l l') (past : served ≠ some other) :
    Behind l' other client := by
  rcases h with ⟨latest, stamped, positive, older⟩
  have before := sound.stamps client latest stamped
  have low : ∀ stamp, l'.stamp other = some stamp → stamp < latest := by
    intro stamp here
    rcases evolves.unserved other past with same | ⟨_, zero⟩
    · exact older stamp (same ▸ here)
    · rw [zero] at here
      cases here
      exact positive
  by_cases chosen : served = some client
  · rcases evolves.stamped client chosen with ⟨later, again⟩
    refine ⟨l'.counter, again, by omega, fun stamp here => ?_⟩
    have below := low stamp here
    omega
  · rcases evolves.unserved client chosen with same | ⟨absent, _⟩
    · exact ⟨latest, same.trans stamped, positive, low⟩
    · rw [absent] at stamped
      cases stamped

end Tally

/-! ## Stamped turns -/

namespace Turns

variable {Label State Client : Type} {turns : Turns Label State Client} {tally : State → Tally Client}

/-- Every step of the system is a step of its tally. -/
structure Stamping (turns : Turns Label State Client) (tally : State → Tally Client) : Prop where
  sound : ∀ state, turns.initial state → (tally state).Sound
  evolves : ∀ state next label, turns.system.Reachable state → turns.step label state next →
    (tally state).Evolves (turns.serves label state) (tally next)

theorem Stamping.reachable (h : turns.Stamping tally) {state : State}
    (reachable : turns.system.Reachable state) : (tally state).Sound := by
  have invariant : turns.system.Invariant fun state => (tally state).Sound :=
    ⟨h.sound, fun state next before sound ⟨label, step⟩ =>
      sound.evolves (h.evolves state next label before step)⟩
  exact invariant.holds reachable

/-- Fairness, where nobody who waits has an older stamp than the client that is served. -/
theorem Stamping.fair (h : turns.Stamping tally) {waits : Label → State → Client → Prop}
    (oldest : ∀ state next label client other, turns.system.Reachable state →
      turns.step label state next → turns.serves label state = some client → waits label state other →
      ∃ stamp, (tally state).stamp other = some stamp
        ∧ ∀ latest, (tally state).stamp client = some latest → latest ≤ stamp) :
    turns.Fair (fun _ _ => True) waits := by
  refine fair_of_behind (fun state other client => (tally state).Behind other client)
    (fun state next label client other reachable step serves _ different => ?_)
    (fun state next label client other reachable step past _ behind => ?_)
    (fun state next label client other reachable step serves behind waiting => ?_)
  · have evolves := h.evolves state next label reachable step
    rw [serves] at evolves
    exact evolves.behind (h.reachable reachable) different
  · exact behind.passed (h.reachable reachable) (h.evolves state next label reachable step) past
  · rcases oldest state next label client other reachable step serves waiting with ⟨stamp, stamped, least⟩
    rcases behind with ⟨latest, taken, _, older⟩
    have above := least latest taken
    have below := older stamp stamped
    omega

/-- Of two services the later one has the greater stamp. -/
def StampsRise (turns : Turns Label State Client) (tally : State → Tally Client) : Prop :=
  ∀ before after later last first second client other,
    turns.system.Reachable before → turns.step first before after →
    turns.serves first before = some client → turns.system.Run after later →
    turns.step second later last → turns.serves second later = some other →
    ∃ stamp next, (tally after).stamp client = some stamp ∧ (tally last).stamp other = some next
      ∧ stamp < next

theorem Stamping.stamps_rise (h : turns.Stamping tally) : turns.StampsRise tally := by
  intro before after later last one two client other reachable step serves run step' serves'
  have start : turns.system.Reachable after := reachable.next ⟨one, step⟩
  have stamped := (h.evolves before after one reachable step).stamped client serves
  have stamped' := (h.evolves later last two (start.run run) step').stamped other serves'
  have grows : (tally after).counter ≤ (tally later).counter := by
    clear step' serves' stamped'
    induction run with
    | refl => exact Int.le_refl _
    | tail path last ih =>
        rcases last with ⟨label, step⟩
        exact Int.le_trans ih (h.evolves _ _ label (start.run path) step).counter
  exact ⟨_, _, stamped.2, stamped'.2, by omega⟩

end Turns
