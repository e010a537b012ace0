import Noxide.Effects.Turns
import Noxide.Jobs.Turns

/-!
# Turns at both queues

The host polls two queues for its tenants, of jobs and of effects.  They rank their tenants by the
same rule: the stamp of the last claim.

Main results:

- Theorem {lit}`tenants_take_turns`: in every serial run no tenant is claimed twice while
  another could have been claimed instead.
-/

namespace Noxide

/-- Both queues are fair to their tenants, take only what is due or whose lease ran out, and
never stamp a sequence twice. -/
theorem tenants_take_turns (jobs : Jobs.Encoding) (effects : Effects.Encoding) :
    Jobs.ClaimsFair jobs ∧ Effects.ClaimsFair effects :=
  ⟨Jobs.job_claims_fair jobs, Effects.effect_claims_fair effects⟩

end Noxide
