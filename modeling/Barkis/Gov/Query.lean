import Barkis.Gov.Invariants

/-!
# The proposal query

`GetProposalsFiltered`, run by the `proposals` query and by the genesis export. It walks the IDs
`maxProposalID - numLatest, …, maxProposalID - 1`, with the subtraction in `uint64`, and keeps the
stored proposals that pass the voter, depositor and status filters.

* `getProposalsFiltered_eq`: the result is the filtered window, for every state and every limit.
* `getProposalsFiltered_of_lt`: a limit above the next proposal ID wraps the window's start past
  its end, and the query returns nothing.
-/

namespace Barkis.Gov

open Bank Supply

variable {C : Type}

/-- `ValidProposalStatus`. -/
def validProposalStatus : ProposalStatus → Bool
  | .nil => false
  | _ => true

/-- The body of the loop of `GetProposalsFiltered` at one ID: the stored proposal, if it passes the
filters. An empty address filters nothing. -/
def filterProposal (s : State C) (voterAddr depositorAddr : AccAddress) (status : ProposalStatus)
    (proposalID : Nat) : Option (Proposal C) :=
  if voterAddr ≠ [] ∧ (s.votes.lookup (proposalID, voterAddr)).isNone then none
  else if depositorAddr ≠ [] ∧ (s.deposits.lookup (proposalID, depositorAddr)).isNone then none
  else
    match s.proposals.lookup proposalID with
    | none => none
    | some proposal =>
      if validProposalStatus status && proposal.status != status then none else some proposal

/-- The loop of `GetProposalsFiltered` from `proposalID`, appending to `matchingProposals`. The index
stays below `maxProposalID`, so its `uint64` increment does not wrap. -/
def filteredLoop (s : State C) (voterAddr depositorAddr : AccAddress) (status : ProposalStatus)
    (maxProposalID : Nat) (matchingProposals : List (Proposal C)) (proposalID : Nat) :
    List (Proposal C) :=
  if proposalID < maxProposalID then
    filteredLoop s voterAddr depositorAddr status maxProposalID
      (matchingProposals ++ (filterProposal s voterAddr depositorAddr status proposalID).toList)
      (proposalID + 1)
  else matchingProposals
termination_by maxProposalID - proposalID

/-- `GetProposalsFiltered`. The stored next proposal ID is the `uint64` that `GetProposalID` decodes;
without one the query returns nothing. -/
def getProposalsFiltered (s : State C) (voterAddr depositorAddr : AccAddress)
    (status : ProposalStatus) (numLatest : UInt64) : List (Proposal C) :=
  match s.proposalID with
  | none => []
  | some maxProposalID =>
    let maxProposalID := maxProposalID.toUInt64
    let numLatest := if numLatest = 0 then maxProposalID else numLatest
    filteredLoop s voterAddr depositorAddr status maxProposalID.toNat []
      (maxProposalID - numLatest).toNat

section Spec

variable (s : State C) (voterAddr depositorAddr : AccAddress) (status : ProposalStatus)

/-- The loop appends the filtered proposals of the IDs it has left. -/
theorem filteredLoop_eq (maxProposalID : Nat) (matchingProposals : List (Proposal C))
    (proposalID : Nat) :
    filteredLoop s voterAddr depositorAddr status maxProposalID matchingProposals proposalID =
      matchingProposals ++ (List.range' proposalID (maxProposalID - proposalID)).filterMap
        (filterProposal s voterAddr depositorAddr status) := by
  fun_induction filteredLoop with
  | case1 matchingProposals proposalID h ih =>
    have hlen : maxProposalID - proposalID = maxProposalID - (proposalID + 1) + 1 := by omega
    rw [ih, hlen, List.range'_succ, List.filterMap_cons, List.append_assoc]
    cases filterProposal s voterAddr depositorAddr status proposalID <;> rfl
  | case2 matchingProposals proposalID h =>
    rw [Nat.sub_eq_zero_of_le (Nat.le_of_not_lt h)]
    simp

/-- The query over the window that starts at `maxProposalID - numLatest` in `uint64`. -/
theorem getProposalsFiltered_eq {maxProposalID : Nat} (hmax : s.proposalID = some maxProposalID)
    (h64 : maxProposalID < 2 ^ 64) (numLatest : UInt64) :
    getProposalsFiltered s voterAddr depositorAddr status numLatest =
      let start := if numLatest = 0 then 0
        else (2 ^ 64 - numLatest.toNat + maxProposalID) % 2 ^ 64
      (List.range' start (maxProposalID - start)).filterMap
        (filterProposal s voterAddr depositorAddr status) := by
  have hmaxNat : maxProposalID.toUInt64.toNat = maxProposalID := UInt64.toNat_ofNat_of_lt' h64
  rw [getProposalsFiltered, hmax]
  dsimp only
  rw [filteredLoop_eq, List.nil_append, hmaxNat]
  split_ifs with h0
  · rw [UInt64.sub_self, UInt64.toNat_zero]
  · rw [UInt64.toNat_sub, hmaxNat]

/-- A limit at most the next proposal ID, or none at all, selects the IDs below the next one. -/
theorem getProposalsFiltered_of_le {maxProposalID : Nat} (hmax : s.proposalID = some maxProposalID)
    (h64 : maxProposalID < 2 ^ 64) {numLatest : UInt64} (hle : numLatest.toNat ≤ maxProposalID) :
    getProposalsFiltered s voterAddr depositorAddr status numLatest =
      let numLatest := if numLatest = 0 then maxProposalID else numLatest.toNat
      (List.range' (maxProposalID - numLatest) numLatest).filterMap
        (filterProposal s voterAddr depositorAddr status) := by
  rw [getProposalsFiltered_eq s voterAddr depositorAddr status hmax h64]
  dsimp only
  split_ifs with h0
  · simp
  · have hstart : (2 ^ 64 - numLatest.toNat + maxProposalID) % 2 ^ 64 =
        maxProposalID - numLatest.toNat := by
      rw [show 2 ^ 64 - numLatest.toNat + maxProposalID =
        (maxProposalID - numLatest.toNat) + 2 ^ 64 by omega, Nat.add_mod_right,
        Nat.mod_eq_of_lt (by omega)]
    rw [hstart, Nat.sub_sub_self hle]

/-- A limit above the next proposal ID wraps the window's start to `maxProposalID - numLatest +
2^64`, which is past its end: the query returns nothing. -/
theorem getProposalsFiltered_of_lt {maxProposalID : Nat} (hmax : s.proposalID = some maxProposalID)
    (h64 : maxProposalID < 2 ^ 64) {numLatest : UInt64} (hlt : maxProposalID < numLatest.toNat) :
    getProposalsFiltered s voterAddr depositorAddr status numLatest = [] := by
  have h0 : numLatest ≠ 0 := by
    rintro rfl
    simp at hlt
  have hstart : maxProposalID ≤ (2 ^ 64 - numLatest.toNat + maxProposalID) % 2 ^ 64 := by
    have := numLatest.toNat_lt
    rw [Nat.mod_eq_of_lt (by omega)]
    omega
  rw [getProposalsFiltered_eq s voterAddr depositorAddr status hmax h64]
  dsimp only
  rw [if_neg h0, Nat.sub_eq_zero_of_le hstart, List.range'_zero, List.filterMap_nil]

end Spec

/-- The account at `[9]` submits proposal 1, so the next proposal ID is 2. A query for the latest
two proposals returns proposal 1; one for the latest three returns nothing. -/
theorem getProposalsFiltered_overLimit :
    (getProposalsFiltered (Gov.run govEnv govGenesis [(0, .submitProposal () [9] (stake 10))])
        [] [] .nil 2).length = 1 ∧
      getProposalsFiltered (Gov.run govEnv govGenesis [(0, .submitProposal () [9] (stake 10))])
        [] [] .nil 3 = [] :=
  have hmax : (Gov.run govEnv govGenesis [(0, .submitProposal () [9] (stake 10))]).proposalID =
      some 2 := by decide
  ⟨by
    rw [getProposalsFiltered_of_le _ _ _ _ hmax (by norm_num) (by decide)]
    decide,
    getProposalsFiltered_of_lt _ _ _ _ hmax (by norm_num) (by decide)⟩

end Barkis.Gov
