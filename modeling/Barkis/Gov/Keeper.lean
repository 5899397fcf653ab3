import Barkis.Supply.Keeper

/-!
# The gov keeper

`x/gov`: proposals, the deposits made on them, the votes, and the two queues of proposals by the
end of their deposit or voting period. Deposits are held in the gov module account; `EndBlocker`
burns the deposits of a proposal whose deposit period ended without reaching `MinDeposit`, and
tallies a proposal whose voting period ended, then refunds or burns its deposits and runs the
proposal's handler if it passed.

What the keeper reads from other modules is `Env`: the supply keeper's configuration, the router
of proposal handlers, the tally's outcome and the parameters. Block times are nanoseconds.

* `step`: the handlers of `MsgSubmitProposal`, `MsgDeposit` and `MsgVote`, each signed by an
  account that can sign (`Bank.canSign`), and `EndBlocker`.
* `run`: a chain of them, where one that fails leaves the state as it was.
-/

namespace Barkis.Gov

open SortedMerge Bank Supply

/-- `types.ModuleName`. -/
def moduleName : String := "gov"

/-- `ProposalStatus`. -/
inductive ProposalStatus
  | nil
  | depositPeriod
  | votingPeriod
  | passed
  | rejected
  | failed
  deriving DecidableEq, Repr

/-- `StatusDepositPeriod` or `StatusVotingPeriod`: the statuses in which deposits are taken. -/
def ProposalStatus.isOpen : ProposalStatus → Bool
  | .depositPeriod | .votingPeriod => true
  | _ => false

/-- `VoteOption`. -/
inductive VoteOption
  | empty
  | yes
  | abstain
  | no
  | noWithVeto
  deriving DecidableEq, Repr

/-- `ValidVoteOption`. -/
def validVoteOption (option : VoteOption) : Bool :=
  option == .yes || option == .abstain || option == .no || option == .noWithVeto

/-- `Proposal`, over the type `C` of its content. -/
structure Proposal (C : Type) where
  content : C
  proposalID : Nat
  status : ProposalStatus
  submitTime : Nat
  depositEndTime : Nat
  totalDeposit : Coins
  votingStartTime : Nat
  votingEndTime : Nat

/-- `DepositParams.MinDeposit`, `DepositParams.MaxDepositPeriod` and `VotingParams.VotingPeriod`. -/
structure Params where
  minDeposit : Coins
  maxDepositPeriod : Nat
  votingPeriod : Nat

/-- A proposal queue: the keys `(endTime, proposalID)` it holds. -/
abbrev Queue := List (Nat × Nat)

/-- The keys of a queue up to `endTime`, in the store's order: by time, then by proposal ID. -/
def Queue.upTo (q : Queue) (endTime : Nat) : List (Nat × Nat) :=
  (q.filter fun key => key.1 ≤ endTime).insertionSort fun a b => a.1 < b.1 ∨ a.1 = b.1 ∧ a.2 ≤ b.2

/-- The gov keeper's stores, with the account store and the supply they move coins in. -/
structure State (C : Type) where
  bank : Supply.State
  proposals : AList fun _ : Nat => Proposal C
  deposits : AList fun _ : Nat × AccAddress => Coins
  votes : AList fun _ : Nat × AccAddress => VoteOption
  inactiveQueue : Queue
  activeQueue : Queue
  proposalID : Option Nat

/-- What the gov keeper reads outside its own stores: the supply keeper's `toLower` and module
permissions, the router of proposal handlers (a handler runs on the account store and the supply,
and fails with `none`), the outcome `(passes, burnDeposits)` of the tally, and the parameters. -/
structure Env (C : Type) where
  toLower : String → String
  permAddrs : String → Option PermissionsForAddress
  router : C → Option (Supply.State → Option Supply.State)
  tally : State C → Proposal C → Bool × Bool
  params : Params

variable {C : Type} (env : Env C)

/-- `SetProposal`. -/
def setProposal (s : State C) (proposal : Proposal C) : State C :=
  { s with proposals := s.proposals.insert proposal.proposalID proposal }

/-- `GetDeposits`: the deposits on a proposal, as `(depositor, amount)`, in the store's order. -/
def getDeposits (s : State C) (proposalID : Nat) : List (AccAddress × Coins) :=
  ((s.deposits.entries.filter fun e => e.1.1 = proposalID).map fun e => (e.1.2, e.2)).insertionSort
    fun a b => a.1 ≤ b.1

/-- `activateVotingPeriod`. -/
def activateVotingPeriod (s : State C) (proposal : Proposal C) (now : Nat) : State C :=
  let proposal := { proposal with
    votingStartTime := now, votingEndTime := now + env.params.votingPeriod, status := .votingPeriod }
  { setProposal s proposal with
    inactiveQueue := s.inactiveQueue.erase (proposal.depositEndTime, proposal.proposalID)
    activeQueue := s.activeQueue.insert (proposal.votingEndTime, proposal.proposalID) }

/-- `SubmitProposal`: the content's handler must exist and succeed on a cache of the store, which
is then dropped; the proposal takes the next ID and waits in the inactive queue. -/
def submitProposal (s : State C) (content : C) (now : Nat) : Option (State C × Nat) :=
  match env.router content with
  | none => none
  | some handler =>
    if (handler s.bank).isNone then none
    else
      s.proposalID.map fun proposalID =>
        let proposal : Proposal C := {
          content, proposalID, status := .depositPeriod, submitTime := now,
          depositEndTime := now + env.params.maxDepositPeriod, totalDeposit := [],
          votingStartTime := 0, votingEndTime := 0 }
        ({ setProposal s proposal with
            inactiveQueue := s.inactiveQueue.insert (proposal.depositEndTime, proposalID)
            proposalID := some (proposalID + 1) }, proposalID)

/-- `AddDeposit`: the amount moves to the gov module account and is added to the proposal's
`TotalDeposit` and to the depositor's deposit; the voting period starts when `TotalDeposit`
reaches `MinDeposit` during the deposit period. Returns whether it started. -/
def addDeposit (s : State C) (proposalID : Nat) (depositorAddr : AccAddress) (depositAmount : Coins)
    (now : Nat) : Option (State C × Bool) :=
  match s.proposals.lookup proposalID with
  | none => none
  | some proposal =>
    if !proposal.status.isOpen then none
    else
      (sendCoinsFromAccountToModule env.toLower env.permAddrs (unixSeconds now) s.bank depositorAddr
          moduleName depositAmount).bind fun bank =>
      (Coins.add proposal.totalDeposit depositAmount).bind fun totalDeposit =>
        let proposal := { proposal with totalDeposit }
        let s := setProposal { s with bank } proposal
        -- `IsAllGTE` is only evaluated in the deposit period
        (if proposal.status = .depositPeriod then Coins.isAllGTE totalDeposit env.params.minDeposit
          else some false).bind fun activate =>
        let s := if activate then activateVotingPeriod env s proposal now else s
        (match s.deposits.lookup (proposalID, depositorAddr) with
          | some amount => Coins.add amount depositAmount
          | none => some depositAmount).map fun amount =>
          ({ s with deposits := s.deposits.insert (proposalID, depositorAddr) amount }, activate)

/-- `AddVote`. -/
def addVote (s : State C) (proposalID : Nat) (voterAddr : AccAddress) (option : VoteOption) :
    Option (State C) :=
  match s.proposals.lookup proposalID with
  | none => none
  | some proposal =>
    if proposal.status ≠ .votingPeriod then none
    else if !validVoteOption option then none
    else some { s with votes := s.votes.insert (proposalID, voterAddr) option }

/-- `DeleteProposal`: panics on a proposal that is not stored. -/
def deleteProposal (s : State C) (proposalID : Nat) : Option (State C) :=
  (s.proposals.lookup proposalID).map fun proposal =>
    { s with
      inactiveQueue := s.inactiveQueue.erase (proposal.depositEndTime, proposalID)
      activeQueue := s.activeQueue.erase (proposal.votingEndTime, proposalID)
      proposals := s.proposals.erase proposalID }

/-- The loop of `RefundDeposits` and `DeleteDeposits`: `act` takes each deposit of the proposal
out of the gov module account, and the deposit is deleted; a failure of `act` panics. -/
def settleDeposits (act : Supply.State → AccAddress → Coins → Option Supply.State)
    (s : State C) (proposalID : Nat) : Option (State C) :=
  (getDeposits s proposalID).foldlM (fun s deposit =>
    (act s.bank deposit.1 deposit.2).map fun bank =>
      { s with bank, deposits := s.deposits.erase (proposalID, deposit.1) }) s

/-- `RefundDeposits`: each deposit goes back to its depositor. -/
def refundDeposits (s : State C) (proposalID now : Nat) : Option (State C) :=
  settleDeposits (fun bank depositor amount =>
    sendCoinsFromModuleToAccount env.toLower env.permAddrs (unixSeconds now) bank moduleName depositor
      amount) s proposalID

/-- `DeleteDeposits`: each deposit is burned. -/
def deleteDeposits (s : State C) (proposalID now : Nat) : Option (State C) :=
  settleDeposits (fun bank _ amount =>
    burnCoins env.toLower env.permAddrs (unixSeconds now) bank moduleName amount) s proposalID

/-- `deleteVote` on every vote on a proposal. -/
def deleteVotes (votes : AList fun _ : Nat × AccAddress => VoteOption) (proposalID : Nat) :
    AList fun _ : Nat × AccAddress => VoteOption :=
  (votes.keys.filter fun key => key.1 = proposalID).foldl (fun votes key => votes.erase key) votes

/-- `tally`: the outcome `(passes, burnDeposits)` is `Env.tally`'s, and the proposal's votes are
deleted as they are counted. -/
def tally (s : State C) (proposal : Proposal C) : (Bool × Bool) × State C :=
  (env.tally s proposal, { s with votes := deleteVotes s.votes proposal.proposalID })

/-- The inactive-queue loop of `EndBlocker`: the proposal is deleted and its deposits burned. -/
def dropInactive (s : State C) (proposalID now : Nat) : Option (State C) :=
  (s.proposals.lookup proposalID).bind fun proposal =>
    (deleteProposal s proposal.proposalID).bind fun s => deleteDeposits env s proposal.proposalID now

/-- The active-queue loop of `EndBlocker`: the proposal is tallied, its deposits burned or
refunded, and a passing proposal's handler runs on a cache of the store, written only when it
succeeds. -/
def tallyActive (s : State C) (proposalID now : Nat) : Option (State C) :=
  (s.proposals.lookup proposalID).bind fun proposal =>
    let (outcome, s) := tally env s proposal
    (if outcome.2 then deleteDeposits env s proposal.proposalID now
      else refundDeposits env s proposal.proposalID now).bind fun s =>
    (if outcome.1 then
      -- `GetRoute` panics on a missing route
      (env.router proposal.content).map fun handler =>
        match handler s.bank with
        | some bank => (ProposalStatus.passed, bank)
        | none => (.failed, s.bank)
    else some (.rejected, s.bank)).map fun (status, bank) =>
      let s := setProposal { s with bank } { proposal with status }
      { s with activeQueue := s.activeQueue.erase (proposal.votingEndTime, proposal.proposalID) }

/-- `EndBlocker` at block time `now`: the inactive queue, then the active queue, each read up to
`now` when its loop starts. -/
def endBlocker (s : State C) (now : Nat) : Option (State C) :=
  ((s.inactiveQueue.upTo now).foldlM (fun s key => dropInactive env s key.2 now) s).bind fun s =>
    (s.activeQueue.upTo now).foldlM (fun s key => tallyActive env s key.2 now) s

/-- The gov messages, and the end of a block. -/
inductive Op (C : Type)
  | submitProposal (content : C) (proposer : AccAddress) (initialDeposit : Coins)
  | deposit (proposalID : Nat) (depositor : AccAddress) (amount : Coins)
  | vote (proposalID : Nat) (voter : AccAddress) (option : VoteOption)
  | endBlock

/-- The signer of a message: the proposer, the depositor or the voter. -/
def Op.signer : Op C → Option AccAddress
  | .submitProposal _ proposer _ => some proposer
  | .deposit _ depositor _ => some depositor
  | .vote _ voter _ => some voter
  | .endBlock => none

/-- `handleMsgSubmitProposal` (the proposal, then its initial deposit), `handleMsgDeposit`,
`handleMsgVote` and `EndBlocker`, at block time `now`. A message runs only when its signer can
sign: the ante handler refuses it otherwise. -/
def step (s : State C) (now : Nat) (op : Op C) : Option (State C) :=
  if op.signer.all (canSign s.bank.accounts) then
    match op with
    | .submitProposal content proposer initialDeposit =>
      (submitProposal env s content now).bind fun (s, proposalID) =>
        (addDeposit env s proposalID proposer initialDeposit now).map Prod.fst
    | .deposit proposalID depositor amount =>
      (addDeposit env s proposalID depositor amount now).map Prod.fst
    | .vote proposalID voter option => addVote s proposalID voter option
    | .endBlock => endBlocker env s now
  else none

/-- A run of timed steps: a step that fails is reverted. -/
def run (s : State C) (ops : List (Nat × Op C)) : State C :=
  ops.foldl (fun s op => (step env s op.1 op.2).getD s) s

end Barkis.Gov
