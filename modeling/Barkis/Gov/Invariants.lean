import Barkis.Gov.Keeper

/-!
# Deposit accounting of the gov keeper

`x/gov/invariants.go` checks that the gov module account holds the sum of all stored deposits.
`Accounted` states it per denom, together with what keeps it true: every deposit belongs to a
stored proposal in its deposit or voting period, whose `TotalDeposit` is the sum of its deposits.

* `Funded`: the module account holds the deposits; `settleDeposits_spec` is the loop that
  refunds or burns the deposits on one proposal.
* `Accounted.step`: each message handler and `EndBlocker` keep `Accounted`. A deposit never comes
  from the gov module account itself: a module account cannot sign (`Bank.canSign`), and the gov
  module account stays one.
* `deposits_accounted`: so does every run.
-/

namespace Barkis.Gov

open SortedMerge Bank Supply

variable {C : Type}

/-- The stored deposits at `d`. -/
def depositsAt (deposits : AList fun _ : Nat × AccAddress => Coins) (d : String) : Int :=
  Ledger.total (fun _ (amount : Coins) => Coins.balance amount d) deposits

/-- The stored deposits on one proposal at `d`. -/
def depositsOn (deposits : AList fun _ : Nat × AccAddress => Coins) (proposalID : Nat)
    (d : String) : Int :=
  Ledger.total (fun key (amount : Coins) => if key.1 = proposalID then Coins.balance amount d else 0)
    deposits

/-- The gov module account at `govAddr` is stored, as a module account (`InitGenesis` creates
it), and holds the stored deposits, none of which it made. -/
structure Funded (govAddr : AccAddress) (s : State C) : Prop where
  wellFormed : s.bank.WellFormed
  govAccount : ∃ acc, s.bank.accounts.lookup govAddr = some acc ∧ acc.permissions.isSome = true
  deposits_sorted : ∀ key amount, s.deposits.lookup key = some amount → Sorted CoinOf.denom amount
  depositors : ∀ key ∈ s.deposits, key.2 ≠ govAddr
  module_eq : ∀ d, Coins.balance (getCoins s.bank.accounts govAddr) d = depositsAt s.deposits d

/-- The gov invariants: the module account holds the deposits, every deposit is on a stored
proposal in its deposit or voting period, and such a proposal's `TotalDeposit` is the sum of its
deposits. -/
structure Accounted (govAddr : AccAddress) (s : State C) : Prop extends Funded govAddr s where
  proposalIDs : ∀ id p, s.proposals.lookup id = some p → p.proposalID = id
  open_deposits : ∀ key ∈ s.deposits, ∃ p, s.proposals.lookup key.1 = some p ∧ p.status.isOpen = true
  totalDeposit_sorted : ∀ id p, s.proposals.lookup id = some p → Sorted CoinOf.denom p.totalDeposit
  totalDeposit_eq : ∀ id p, s.proposals.lookup id = some p → p.status.isOpen = true →
    ∀ d, Coins.balance p.totalDeposit d = depositsOn s.deposits id d
  fresh : ∀ n, s.proposalID = some n → ∀ id ∈ s.proposals, id < n

/-- What the gov keeper needs of its environment: the gov module is registered at `govAddr`, and
a proposal handler keeps coins sorted and leaves the gov module account as it was. (The
community-pool spend refuses module accounts as recipients; a parameter change moves no coins.) -/
structure Env.Sound (env : Env C) (govAddr : AccAddress) : Prop where
  gov_address : getModuleAddress env.permAddrs moduleName = some govAddr
  router : ∀ c handler bank bank', env.router c = some handler → bank.WellFormed →
    handler bank = some bank' →
      bank'.WellFormed ∧ bank'.accounts.lookup govAddr = bank.accounts.lookup govAddr

variable {govAddr : AccAddress} {s s' : State C}

theorem Funded.of_eq (hs : Funded govAddr s) (hb : s'.bank = s.bank) (hd : s'.deposits = s.deposits) :
    Funded govAddr s' := by
  obtain ⟨h₁, h₀, h₂, h₃, h₄⟩ := hs
  exact ⟨hb ▸ h₁, hb ▸ h₀, hd ▸ h₂, hd ▸ h₃, hb ▸ hd ▸ h₄⟩

theorem Accounted.of_eq (hs : Accounted govAddr s) (hb : s'.bank = s.bank)
    (hd : s'.deposits = s.deposits) (hp : s'.proposals = s.proposals)
    (hn : s'.proposalID = s.proposalID) : Accounted govAddr s' := by
  obtain ⟨hf, h₁, h₂, h₃, h₄, h₅⟩ := hs
  exact ⟨hf.of_eq hb hd, hp ▸ h₁, hp ▸ hd ▸ h₂, hp ▸ h₃, hp ▸ hd ▸ h₄, hp ▸ hn ▸ h₅⟩

/-! ## The deposits on one proposal -/

theorem lookup_of_mem_getDeposits {id : Nat} {e : AccAddress × Coins} (he : e ∈ getDeposits s id) :
    s.deposits.lookup (id, e.1) = some e.2 := by
  rw [getDeposits, (List.perm_insertionSort _ _).mem_iff] at he
  obtain ⟨⟨key, amount⟩, hk, rfl⟩ := List.mem_map.1 he
  obtain ⟨hk, hid⟩ := List.mem_filter.1 hk
  have hid : key.1 = id := of_decide_eq_true hid
  exact AList.mem_lookup_iff.2 (by rw [← hid]; exact hk)

theorem nodup_getDeposits (id : Nat) : ((getDeposits s id).map Prod.fst).Nodup := by
  rw [getDeposits, ((List.perm_insertionSort _ _).map Prod.fst).nodup_iff, List.map_map]
  -- the depositors of one proposal are distinct because the keys are
  have hkeys : ((s.deposits.entries.filter fun e => e.1.1 = id).map Sigma.fst).Nodup :=
    List.Nodup.sublist (List.Sublist.map Sigma.fst List.filter_sublist) s.deposits.nodupKeys
  have h : (((s.deposits.entries.filter fun e => e.1.1 = id).map Sigma.fst).map Prod.snd).Nodup :=
    hkeys.map_on fun x hx y hy hxy => by
      obtain ⟨e, he, rfl⟩ := List.mem_map.1 hx
      obtain ⟨e', he', rfl⟩ := List.mem_map.1 hy
      have h₁ : e.1.1 = id := of_decide_eq_true (List.mem_filter.1 he).2
      have h₂ : e'.1.1 = id := of_decide_eq_true (List.mem_filter.1 he').2
      exact Prod.ext (h₁.trans h₂.symm) hxy
  rw [List.map_map] at h
  exact h

theorem mem_getDeposits {id : Nat} {key : Nat × AccAddress} (hk : key ∈ s.deposits) (hid : key.1 = id) :
    key.2 ∈ (getDeposits s id).map Prod.fst := by
  rw [getDeposits, ((List.perm_insertionSort _ _).map Prod.fst).mem_iff, List.map_map]
  obtain ⟨amount, hl⟩ := Option.isSome_iff_exists.1 (AList.lookup_isSome.2 hk)
  exact List.mem_map.2 ⟨⟨key, amount⟩, List.mem_filter.2 ⟨AList.mem_lookup_iff.1 hl,
    decide_eq_true hid⟩, rfl⟩

/-! ## Refunds and burns -/

theorem depositsAt_erase {deposits : AList fun _ : Nat × AccAddress => Coins} {key : Nat × AccAddress}
    {amount : Coins} (hl : deposits.lookup key = some amount) (d : String) :
    depositsAt (deposits.erase key) d = depositsAt deposits d - Coins.balance amount d := by
  rw [depositsAt, Ledger.total_erase, ← depositsAt]
  simp [Ledger.weightAt, hl]

theorem depositsOn_erase {deposits : AList fun _ : Nat × AccAddress => Coins} {key : Nat × AccAddress}
    {amount : Coins} (hl : deposits.lookup key = some amount) (i : Nat) (d : String) :
    depositsOn (deposits.erase key) i d =
      depositsOn deposits i d - if key.1 = i then Coins.balance amount d else 0 := by
  rw [depositsOn, Ledger.total_erase, ← depositsOn]
  simp [Ledger.weightAt, hl]

/-- What the loop of `RefundDeposits` and `DeleteDeposits` asks of its action: on a deposit that
the gov module account did not make, it keeps coins sorted and every account's kind, and takes
the amount from the module account. -/
def Releases (govAddr : AccAddress) (act : Supply.State → AccAddress → Coins → Option Supply.State) :
    Prop :=
  ∀ bank depositor amount bank', bank.WellFormed → depositor ≠ govAddr →
    act bank depositor amount = some bank' → bank'.WellFormed ∧ Keeps bank.accounts bank'.accounts ∧
      ∀ d, Coins.balance (getCoins bank'.accounts govAddr) d =
        Coins.balance (getCoins bank.accounts govAddr) d - Coins.balance amount d

variable {env : Env C}

theorem releases_refund (hsound : env.Sound govAddr) (now : Nat) :
    Releases govAddr fun bank depositor amount =>
      sendCoinsFromModuleToAccount env.toLower env.permAddrs (unixSeconds now) bank moduleName
        depositor amount := by
  intro bank depositor amount bank' hb hne h
  refine ⟨(sendCoinsFromModuleToAccount_moves hb h).wellFormed, sendCoinsFromModuleToAccount_keeps h,
    fun d => ?_⟩
  rw [balance_sendCoinsFromModuleToAccount hb hsound.gov_address h, if_pos rfl,
    if_neg (Ne.symm hne), add_zero]

theorem releases_burn (hsound : env.Sound govAddr) (now : Nat) :
    Releases govAddr fun bank _ amount =>
      burnCoins env.toLower env.permAddrs (unixSeconds now) bank moduleName amount := by
  intro bank depositor amount bank' hb _ h
  refine ⟨(burnCoins_moves hb h).wellFormed, burnCoins_keeps h, fun d => ?_⟩
  rw [balance_burnCoins hb hsound.gov_address h, if_pos rfl]

/-- One turn of the loop: the module account and the deposits both lose the amount. -/
theorem Funded.release {act : Supply.State → AccAddress → Coins → Option Supply.State}
    (hs : Funded govAddr s) (hact : Releases govAddr act) {id : Nat} {depositor : AccAddress}
    {amount : Coins} {bank' : Supply.State} (hl : s.deposits.lookup (id, depositor) = some amount)
    (h : act s.bank depositor amount = some bank') :
    Funded govAddr { s with bank := bank', deposits := s.deposits.erase (id, depositor) } := by
  have hmem : (id, depositor) ∈ s.deposits := AList.lookup_isSome.1 (by rw [hl]; rfl)
  obtain ⟨hwf, hkeeps, hbal⟩ := hact _ _ _ _ hs.wellFormed (hs.depositors _ hmem) h
  obtain ⟨acc, hgl, hm⟩ := hs.govAccount
  obtain ⟨acc', hgl', hp'⟩ := hkeeps _ _ hgl
  refine ⟨hwf, ⟨acc', hgl', hp' ▸ hm⟩, fun key a hk => ?_,
    fun key hk => hs.depositors key (AList.mem_erase.1 hk).2, fun d => ?_⟩
  · by_cases he : key = (id, depositor)
    · rw [he] at hk
      exact absurd hk (by simp only [AList.lookup_erase, reduceCtorEq, not_false_eq_true])
    · rw [AList.lookup_erase_ne he] at hk
      exact hs.deposits_sorted key a hk
  · show _ = depositsAt (s.deposits.erase (id, depositor)) d
    rw [hbal d, depositsAt_erase hl, hs.module_eq d]

/-- The loop of `settleDeposits` over deposits that are stored, with distinct depositors. -/
theorem settle_spec {act : Supply.State → AccAddress → Coins → Option Supply.State}
    (hact : Releases govAddr act) (id : Nat) :
    ∀ (l : List (AccAddress × Coins)) (s s' : State C), Funded govAddr s →
      (∀ e ∈ l, s.deposits.lookup (id, e.1) = some e.2) → (l.map Prod.fst).Nodup →
      l.foldlM (fun s deposit => (act s.bank deposit.1 deposit.2).map fun bank =>
        { s with bank, deposits := s.deposits.erase (id, deposit.1) }) s = some s' →
      Funded govAddr s' ∧ s'.proposals = s.proposals ∧ s'.proposalID = s.proposalID ∧
        (∀ key ∈ s'.deposits, key ∈ s.deposits ∧ (key.1 = id → key.2 ∉ l.map Prod.fst)) ∧
        ∀ i, i ≠ id → ∀ d, depositsOn s'.deposits i d = depositsOn s.deposits i d
  | [], s, s', hs, _, _, h => by
    cases h
    exact ⟨hs, rfl, rfl, fun key hk => ⟨hk, fun _ => List.not_mem_nil⟩, fun _ _ _ => rfl⟩
  | e :: l, s, s', hs, hl, hnd, h => by
    rw [List.foldlM_cons] at h
    obtain ⟨s₁, h₁, h⟩ := Option.bind_eq_some_iff.1 h
    obtain ⟨bank₁, hact₁, rfl⟩ := Option.map_eq_some_iff.1 h₁
    have hle := hl e List.mem_cons_self
    rw [List.map_cons, List.nodup_cons] at hnd
    -- the other deposits of the list are still stored once the first is deleted
    have hl₁ : ∀ e' ∈ l, (s.deposits.erase (id, e.1)).lookup (id, e'.1) = some e'.2 := by
      intro e' he'
      rw [AList.lookup_erase_ne]
      · exact hl e' (List.mem_cons_of_mem _ he')
      · intro heq
        exact hnd.1 (by rw [← (Prod.mk.inj heq).2]; exact List.mem_map_of_mem he')
    obtain ⟨hs', hp, hn, hk, hon⟩ := settle_spec hact id l _ s' (hs.release hact hle hact₁) hl₁ hnd.2 h
    refine ⟨hs', hp, hn, fun key hkey => ?_, fun i hi d => ?_⟩
    · obtain ⟨hk₁, hk₂⟩ := hk key hkey
      obtain ⟨hne, hk₁⟩ := AList.mem_erase.1 hk₁
      refine ⟨hk₁, fun hid hmem => ?_⟩
      rw [List.map_cons, List.mem_cons] at hmem
      rcases hmem with heq | hmem
      · exact hne (Prod.ext hid heq)
      · exact hk₂ hid hmem
    · rw [hon i hi d]
      show depositsOn (s.deposits.erase (id, e.1)) i d = _
      rw [depositsOn_erase hle, if_neg (Ne.symm hi), sub_zero]

/-- `RefundDeposits` and `DeleteDeposits` take every deposit on the proposal out of the module
account and the store, and leave the deposits on other proposals. -/
theorem settleDeposits_spec {act : Supply.State → AccAddress → Coins → Option Supply.State}
    (hs : Funded govAddr s) (hact : Releases govAddr act) {id : Nat}
    (h : settleDeposits act s id = some s') :
    Funded govAddr s' ∧ s'.proposals = s.proposals ∧ s'.proposalID = s.proposalID ∧
      (∀ key ∈ s'.deposits, key ∈ s.deposits ∧ key.1 ≠ id) ∧
      ∀ i, i ≠ id → ∀ d, depositsOn s'.deposits i d = depositsOn s.deposits i d := by
  obtain ⟨hs', hp, hn, hk, hon⟩ := settle_spec hact id _ s s' hs
    (fun _ he => lookup_of_mem_getDeposits he) (nodup_getDeposits id) h
  refine ⟨hs', hp, hn, fun key hkey => ⟨(hk key hkey).1, fun hid => ?_⟩, hon⟩
  exact (hk key hkey).2 hid (mem_getDeposits (hk key hkey).1 hid)

theorem Funded.of_bank (hs : Funded govAddr s) (hwf : s'.bank.WellFormed)
    (hgov : s'.bank.accounts.lookup govAddr = s.bank.accounts.lookup govAddr)
    (hd : s'.deposits = s.deposits) : Funded govAddr s' := by
  have hcoins : getCoins s'.bank.accounts govAddr = getCoins s.bank.accounts govAddr := by
    rw [getCoins, hgov, getCoins]
  exact ⟨hwf, hgov ▸ hs.govAccount, hd ▸ hs.deposits_sorted, hd ▸ hs.depositors,
    fun d => by rw [hcoins, hd]; exact hs.module_eq d⟩

/-! ## `EndBlocker` -/

/-- Once the deposits on `id` are settled, the proposal at `id` may be deleted or closed: the
invariants hold again. -/
theorem Accounted.close {id : Nat} (hs : Accounted govAddr s) (hf : Funded govAddr s')
    (hd : ∀ key ∈ s'.deposits, key ∈ s.deposits ∧ key.1 ≠ id)
    (hon : ∀ i, i ≠ id → ∀ d, depositsOn s'.deposits i d = depositsOn s.deposits i d)
    (hn : s'.proposalID = s.proposalID)
    (hother : ∀ k, k ≠ id → s'.proposals.lookup k = s.proposals.lookup k)
    (hid : ∀ p, s'.proposals.lookup id = some p →
      p.proposalID = id ∧ p.status.isOpen = false ∧ Sorted CoinOf.denom p.totalDeposit)
    (hkeys : ∀ k ∈ s'.proposals, k ∈ s.proposals) : Accounted govAddr s' := by
  refine ⟨hf, fun k p hk => ?_, fun key hkey => ?_, fun k p hk => ?_, fun k p hk hopen d => ?_,
    fun n hn' k hk => hs.fresh n (hn ▸ hn') k (hkeys k hk)⟩
  · by_cases hki : k = id
    · subst hki
      exact (hid p hk).1
    · rw [hother k hki] at hk
      exact hs.proposalIDs k p hk
  · obtain ⟨hkey, hne⟩ := hd key hkey
    rw [hother key.1 hne]
    exact hs.open_deposits key hkey
  · by_cases hki : k = id
    · subst hki
      exact (hid p hk).2.2
    · rw [hother k hki] at hk
      exact hs.totalDeposit_sorted k p hk
  · -- the closed proposal is not open, so only the others are left
    have hki : k ≠ id := by
      rintro rfl
      rw [(hid p hk).2.1] at hopen
      cases hopen
    rw [hother k hki] at hk
    rw [hon k hki d]
    exact hs.totalDeposit_eq k p hk hopen d

/-- The inactive-queue loop: the proposal is deleted and its deposits burned. -/
theorem Accounted.dropInactive (hsound : env.Sound govAddr) (hs : Accounted govAddr s) {id now : Nat}
    (h : dropInactive env s id now = some s') : Accounted govAddr s' := by
  obtain ⟨p, hp, hdrop⟩ := Option.bind_eq_some_iff.1 h
  obtain rfl := hs.proposalIDs id p hp
  obtain ⟨s₁, hdel, hburn⟩ := Option.bind_eq_some_iff.1 hdrop
  obtain ⟨q, -, hs₁⟩ := Option.map_eq_some_iff.1 hdel
  have hdeps₁ : s₁.deposits = s.deposits := by rw [← hs₁]
  have hprops₁ : s₁.proposals = s.proposals.erase p.proposalID := by rw [← hs₁]
  have hpid₁ : s₁.proposalID = s.proposalID := by rw [← hs₁]
  obtain ⟨hf, hprop, hn, hd, hon⟩ := settleDeposits_spec
    (hs.toFunded.of_eq (by rw [← hs₁]) hdeps₁) (releases_burn hsound now) hburn
  refine hs.close hf (hdeps₁ ▸ hd) (hdeps₁ ▸ hon) (hn.trans hpid₁) (fun k hk => ?_) (fun q hq => ?_)
    (fun k hk => ?_)
  · rw [hprop, hprops₁]
    exact AList.lookup_erase_ne hk
  · rw [hprop, hprops₁, AList.lookup_erase] at hq
    cases hq
  · rw [hprop, hprops₁] at hk
    exact (AList.mem_erase.1 hk).2

/-- The active-queue loop: the deposits are burned or refunded, the proposal closed, and a
passing proposal's handler leaves the module account's coins. -/
theorem Accounted.tallyActive (hsound : env.Sound govAddr) (hs : Accounted govAddr s) {id now : Nat}
    (h : tallyActive env s id now = some s') : Accounted govAddr s' := by
  obtain ⟨p, hp, htally⟩ := Option.bind_eq_some_iff.1 h
  obtain rfl := hs.proposalIDs id p hp
  dsimp only [tally] at htally
  obtain ⟨s₂, h₂, hclose⟩ := Option.bind_eq_some_iff.1 htally
  obtain ⟨⟨status, bank⟩, hsb, hs'⟩ := Option.map_eq_some_iff.1 hclose
  have hs₁ : Funded govAddr { s with votes := deleteVotes s.votes p.proposalID } :=
    hs.toFunded.of_eq rfl rfl
  have hset := by
    split at h₂
    · exact settleDeposits_spec hs₁ (releases_burn hsound now) h₂
    · exact settleDeposits_spec hs₁ (releases_refund hsound now) h₂
  obtain ⟨hf, hprop, hn, hd, hon⟩ := hset
  -- the proposal ends passed, failed or rejected; only a passing handler moves coins
  have hclosed : status.isOpen = false ∧ bank.WellFormed ∧
      bank.accounts.lookup govAddr = s₂.bank.accounts.lookup govAddr := by
    split at hsb
    · obtain ⟨handler, hr, hb⟩ := Option.map_eq_some_iff.1 hsb
      split at hb
      · rename_i bank' hbank'
        cases hb
        exact ⟨rfl, hsound.router _ _ _ _ hr hf.wellFormed hbank'⟩
      · cases hb
        exact ⟨rfl, hf.wellFormed, rfl⟩
    · cases hsb
      exact ⟨rfl, hf.wellFormed, rfl⟩
  have hbank : s'.bank = bank := by rw [← hs']; rfl
  have hdeps : s'.deposits = s₂.deposits := by rw [← hs']; rfl
  have hpid : s'.proposalID = s₂.proposalID := by rw [← hs']; rfl
  have hprops : s'.proposals = s₂.proposals.insert p.proposalID { p with status } := by
    rw [← hs']; rfl
  have hlookup : ∀ k, s'.proposals.lookup k =
      if k = p.proposalID then some { p with status } else s.proposals.lookup k := by
    intro k
    rw [hprops, Ledger.lookup_insert_ite, hprop]
  refine hs.close (hf.of_bank (hbank ▸ hclosed.2.1) (hbank ▸ hclosed.2.2) hdeps) (hdeps ▸ hd)
    (hdeps ▸ hon) (hpid.trans hn) (fun k hk => (hlookup k).trans (if_neg hk)) (fun q hq => ?_)
    (fun k hk => ?_)
  · rw [hlookup, if_pos rfl] at hq
    cases hq
    exact ⟨rfl, hclosed.1, hs.totalDeposit_sorted _ p hp⟩
  · rw [hprops] at hk
    rcases (AList.mem_insert _).1 hk with rfl | hk
    · exact AList.lookup_isSome.1 (by rw [hp]; rfl)
    · rwa [hprop] at hk

theorem Accounted.endBlocker (hsound : env.Sound govAddr) (hs : Accounted govAddr s) {now : Nat}
    (h : endBlocker env s now = some s') : Accounted govAddr s' := by
  obtain ⟨s₁, h₁, h₂⟩ := Option.bind_eq_some_iff.1 h
  have hs₁ := Ledger.foldlM_inv (Accounted govAddr) _ (fun _ _ _ hs h => hs.dropInactive hsound h)
    _ s s₁ hs h₁
  exact Ledger.foldlM_inv (Accounted govAddr) _ (fun _ _ _ hs h => hs.tallyActive hsound h)
    _ s₁ s' hs₁ h₂

/-! ## The message handlers -/

theorem depositsAt_insert (deposits : AList fun _ : Nat × AccAddress => Coins) (key : Nat × AccAddress)
    (amount : Coins) (d : String) :
    depositsAt (deposits.insert key amount) d = depositsAt deposits d -
      Ledger.weightAt (fun _ (a : Coins) => Coins.balance a d) deposits key + Coins.balance amount d :=
  Ledger.total_insert _ _ _ _

theorem depositsOn_insert (deposits : AList fun _ : Nat × AccAddress => Coins) (key : Nat × AccAddress)
    (amount : Coins) (i : Nat) (d : String) :
    depositsOn (deposits.insert key amount) i d = depositsOn deposits i d -
      (if key.1 = i then Ledger.weightAt (fun _ (a : Coins) => Coins.balance a d) deposits key else 0) +
        if key.1 = i then Coins.balance amount d else 0 := by
  rw [depositsOn, Ledger.total_insert, ← depositsOn]
  by_cases hk : key.1 = i
  · simp [Ledger.weightAt, hk]
  · unfold Ledger.weightAt
    cases deposits.lookup key <;> simp [hk]

/-- `SubmitProposal`: the new proposal takes an ID that no proposal and no deposit has, with
nothing deposited. -/
theorem Accounted.submitProposal (hs : Accounted govAddr s) {content : C} {now n : Nat}
    (h : submitProposal env s content now = some (s', n)) : Accounted govAddr s' := by
  unfold Gov.submitProposal at h
  split at h
  · cases h
  · split_ifs at h
    obtain ⟨m, hm, hs'⟩ := Option.map_eq_some_iff.1 h
    simp only [Prod.mk.injEq] at hs'
    obtain ⟨hs', -⟩ := hs'
    obtain ⟨prop, hprop, htotal, hprops⟩ : ∃ prop : Proposal C, prop.proposalID = m ∧
        prop.totalDeposit = [] ∧ s'.proposals = s.proposals.insert m prop :=
      ⟨_, rfl, rfl, by rw [← hs']; rfl⟩
    have hdeps : s'.deposits = s.deposits := by rw [← hs']; rfl
    have hn : s'.proposalID = some (m + 1) := by rw [← hs']
    -- the new ID is above every stored one, so no deposit is on it
    have hfresh : m ∉ s.proposals := fun hmem => lt_irrefl m (hs.fresh m hm m hmem)
    have hnodep : ∀ key ∈ s.deposits, key.1 ≠ m := fun key hk he => by
      obtain ⟨p, hp, -⟩ := hs.open_deposits key hk
      exact hfresh (he ▸ AList.lookup_isSome.1 (by rw [hp]; rfl))
    refine ⟨hs.toFunded.of_eq (by rw [← hs']; rfl) hdeps, fun k p hk => ?_, fun key hkey => ?_,
      fun k p hk => ?_, fun k p hk hopen d => ?_, fun n' hn' k hk => ?_⟩
    · rw [hprops, Ledger.lookup_insert_ite] at hk
      split_ifs at hk with hkm
      · cases hk
        exact hprop.trans hkm.symm
      · exact hs.proposalIDs k p hk
    · rw [hdeps] at hkey
      rw [hprops, Ledger.lookup_insert_ite, if_neg (hnodep key hkey)]
      exact hs.open_deposits key hkey
    · rw [hprops, Ledger.lookup_insert_ite] at hk
      split_ifs at hk
      · cases hk
        rw [htotal]
        exact List.Pairwise.nil
      · exact hs.totalDeposit_sorted k p hk
    · rw [hprops, Ledger.lookup_insert_ite] at hk
      rw [hdeps]
      split_ifs at hk with hkm
      · cases hk
        rw [htotal, Coins.balance_nil, depositsOn, Ledger.total_eq_zero]
        intro key a hl
        rw [if_neg (hkm ▸ hnodep key (AList.lookup_isSome.1 (by rw [hl]; rfl)))]
      · exact hs.totalDeposit_eq k p hk hopen d
    · rw [hn, Option.some_inj] at hn'
      subst hn'
      rw [hprops, AList.mem_insert] at hk
      rcases hk with rfl | hk
      · exact Nat.lt_succ_self k
      · exact Nat.lt_succ_of_lt (hs.fresh m hm k hk)

/-- What `AddDeposit` does when it succeeds: the coins move to the module account, the proposal
is written back with the deposit added to `TotalDeposit` (and maybe in its voting period), and
the depositor's deposit grows by the amount. -/
theorem addDeposit_spec {id : Nat} {dep : AccAddress} {amt : Coins} {now : Nat} {act : Bool}
    (h : addDeposit env s id dep amt now = some (s', act)) :
    ∃ p bank total newAmount p', s.proposals.lookup id = some p ∧ p.status.isOpen = true ∧
      sendCoinsFromAccountToModule env.toLower env.permAddrs (unixSeconds now) s.bank dep moduleName amt =
        some bank ∧
      Coins.add p.totalDeposit amt = some total ∧
      (match s.deposits.lookup (id, dep) with
        | some a => Coins.add a amt
        | none => some amt) = some newAmount ∧
      p'.proposalID = p.proposalID ∧ p'.totalDeposit = total ∧ p'.status.isOpen = true ∧
      s'.bank = bank ∧ s'.deposits = s.deposits.insert (id, dep) newAmount ∧
      s'.proposals = s.proposals.insert p.proposalID p' ∧ s'.proposalID = s.proposalID := by
  unfold addDeposit at h
  split at h
  · cases h
  · rename_i p hp
    split_ifs at h with hopen
    have hopen : p.status.isOpen = true := by simpa using hopen
    obtain ⟨bank, hbank, h⟩ := Option.bind_eq_some_iff.1 h
    obtain ⟨total, htotal, h⟩ := Option.bind_eq_some_iff.1 h
    obtain ⟨activate, -, h⟩ := Option.bind_eq_some_iff.1 h
    obtain ⟨newAmount, hnew, hs'⟩ := Option.map_eq_some_iff.1 h
    simp only [Prod.mk.injEq] at hs'
    obtain ⟨hs', -⟩ := hs'
    cases activate
    · exact ⟨p, bank, total, newAmount, { p with totalDeposit := total }, hp, hopen, hbank, htotal,
        hnew, rfl, rfl, hopen, by rw [← hs']; rfl, by rw [← hs']; rfl, by rw [← hs']; rfl,
        by rw [← hs']; rfl⟩
    · -- the proposal is written twice at its ID, the second time in its voting period
      refine ⟨p, bank, total, newAmount,
        { p with totalDeposit := total, status := .votingPeriod, votingStartTime := now,
                 votingEndTime := now + env.params.votingPeriod },
        hp, hopen, hbank, htotal, hnew, rfl, rfl, rfl, by rw [← hs']; rfl, by rw [← hs']; rfl, ?_,
        by rw [← hs']; rfl⟩
      rw [← hs']
      exact AList.insert_insert _

/-- `AddDeposit` from an account other than the gov module account: the module account and the
deposits both grow by the amount, and so does the proposal's `TotalDeposit`. -/
theorem Accounted.addDeposit (hsound : env.Sound govAddr) (hs : Accounted govAddr s) {id : Nat}
    {dep : AccAddress} {amt : Coins} {now : Nat} {act : Bool} (hdep : dep ≠ govAddr)
    (h : addDeposit env s id dep amt now = some (s', act)) : Accounted govAddr s' := by
  obtain ⟨p, bank, total, newAmount, p', hp, hopen, hbank, htotal, hnew, hp'id, hp'total, hp'open,
    hsb, hsd, hsp, hsn⟩ := addDeposit_spec h
  obtain rfl := hs.proposalIDs id p hp
  have hamt : Sorted CoinOf.denom amt :=
    Coins.sorted_of_isValid (isValid_of_sendCoinsFromAccountToModule hbank)
  have hptotal := hs.totalDeposit_sorted _ p hp
  -- the depositor's deposit grows by the amount
  have hgrow : Sorted CoinOf.denom newAmount ∧ ∀ d, Coins.balance newAmount d =
      Ledger.weightAt (fun _ (a : Coins) => Coins.balance a d) s.deposits (p.proposalID, dep) +
        Coins.balance amt d := by
    split at hnew
    · rename_i a ha
      have hsa := hs.deposits_sorted _ a ha
      exact ⟨Coins.sorted_add hsa hamt hnew, fun d => by
        rw [Coins.balance_add hsa hamt hnew]
        simp [Ledger.weightAt, ha]⟩
    · rename_i ha
      cases hnew
      exact ⟨hamt, fun d => by simp [Ledger.weightAt, ha]⟩
  have hlookup : ∀ k, s'.proposals.lookup k =
      if k = p.proposalID then some p' else s.proposals.lookup k := by
    intro k
    rw [hsp, Ledger.lookup_insert_ite]
  -- the gov module account is still stored as one
  have hgov : ∃ acc, s'.bank.accounts.lookup govAddr = some acc ∧ acc.permissions.isSome = true := by
    obtain ⟨acc, hl, hm⟩ := hs.govAccount
    obtain ⟨acc', hl', hp'⟩ := sendCoinsFromAccountToModule_keeps hbank _ _ hl
    exact ⟨acc', hsb ▸ hl', hp' ▸ hm⟩
  refine ⟨⟨hsb ▸ (sendCoinsFromAccountToModule_moves hs.wellFormed hbank).wellFormed, hgov,
    fun key a hk => ?_, fun key hk => ?_, fun d => ?_⟩, fun k q hk => ?_, fun key hk => ?_,
    fun k q hk => ?_, fun k q hk hq d => ?_, fun n hn k hk => ?_⟩
  · rw [hsd, Ledger.lookup_insert_ite] at hk
    split_ifs at hk
    · cases hk
      exact hgrow.1
    · exact hs.deposits_sorted key a hk
  · rw [hsd, AList.mem_insert] at hk
    rcases hk with rfl | hk
    · exact hdep
    · exact hs.depositors key hk
  · rw [hsb, balance_sendCoinsFromAccountToModule hs.wellFormed hsound.gov_address hbank,
      if_neg (Ne.symm hdep), if_pos rfl, sub_zero, hs.module_eq d, hsd, depositsAt_insert, hgrow.2 d]
    ring
  · rw [hlookup] at hk
    split_ifs at hk with hkp
    · cases hk
      exact hp'id.trans hkp.symm
    · exact hs.proposalIDs k q hk
  · -- a deposit is on the proposal just written, or on one the deposit did not touch
    rw [hsd, AList.mem_insert] at hk
    rw [hlookup]
    rcases hk with rfl | hk
    · exact ⟨p', if_pos rfl, hp'open⟩
    · split_ifs with hkp
      · exact ⟨p', rfl, hp'open⟩
      · exact hs.open_deposits key hk
  · rw [hlookup] at hk
    split_ifs at hk
    · cases hk
      rw [hp'total]
      exact Coins.sorted_add hptotal hamt htotal
    · exact hs.totalDeposit_sorted k q hk
  · rw [hsd, depositsOn_insert]
    rw [hlookup] at hk
    split_ifs at hk with hkp
    · cases hk
      rw [hkp, if_pos rfl, if_pos rfl, hp'total, Coins.balance_add hptotal hamt htotal,
        hs.totalDeposit_eq _ p hp hopen d, hgrow.2 d]
      ring
    · rw [if_neg (Ne.symm hkp), if_neg (Ne.symm hkp), sub_zero, add_zero]
      exact hs.totalDeposit_eq k q hk hq d
  · rw [hsn] at hn
    rw [hsp, AList.mem_insert] at hk
    rcases hk with rfl | hk
    · exact hs.fresh n hn _ (AList.lookup_isSome.1 (by rw [hp]; rfl))
    · exact hs.fresh n hn k hk

theorem Accounted.addVote (hs : Accounted govAddr s) {id : Nat} {voter : AccAddress}
    {option : VoteOption} (h : addVote s id voter option = some s') : Accounted govAddr s' := by
  unfold Gov.addVote at h
  split at h
  · cases h
  · split_ifs at h
    cases h
    exact hs.of_eq rfl rfl rfl rfl

/-! ## Runs -/

/-- A message's signer is not the gov module account: a module account cannot sign. -/
theorem Funded.ne_of_canSign (hs : Funded govAddr s) {addr : AccAddress}
    (h : canSign s.bank.accounts addr = true) : addr ≠ govAddr := by
  obtain ⟨acc, hl, hm⟩ := hs.govAccount
  exact Bank.ne_of_canSign hl hm h

/-- Each gov message and `EndBlocker` keep the invariants. -/
theorem Accounted.step (hsound : env.Sound govAddr) (hs : Accounted govAddr s) {now : Nat}
    {op : Op C} (h : Gov.step env s now op = some s') : Accounted govAddr s' := by
  unfold Gov.step at h
  split_ifs at h with hsign
  cases op with
  | submitProposal content proposer initialDeposit =>
    obtain ⟨⟨s₁, n⟩, hsubmit, hdeposit⟩ := Option.bind_eq_some_iff.1 h
    dsimp only at hdeposit
    obtain ⟨⟨s₂, act⟩, hadd, rfl⟩ := Option.map_eq_some_iff.1 hdeposit
    exact (hs.submitProposal hsubmit).addDeposit hsound (hs.ne_of_canSign hsign) hadd
  | deposit proposalID depositor amount =>
    obtain ⟨⟨s₂, act⟩, hadd, rfl⟩ := Option.map_eq_some_iff.1 h
    exact hs.addDeposit hsound (hs.ne_of_canSign hsign) hadd
  | vote => exact hs.addVote h
  | endBlock => exact hs.endBlocker hsound h

/-- Deposit accounting: from a state where the gov module account is stored as a module account
and holds the stored deposits, and every proposal in its deposit or voting period has the sum of
its deposits as `TotalDeposit`, every run of gov messages and `EndBlocker`s ends in such a
state. -/
theorem deposits_accounted (env : Env C) (govAddr : AccAddress) (hsound : env.Sound govAddr) :
    ∀ (ops : List (Nat × Op C)) (s : State C), Accounted govAddr s →
      Accounted govAddr (Gov.run env s ops)
  | [], _, hs => hs
  | op :: ops, s, hs => by
    -- a step that fails is reverted
    have hs' : Accounted govAddr ((Gov.step env s op.1 op.2).getD s) := by
      cases h : Gov.step env s op.1 op.2 with
      | none => exact hs
      | some s' => exact hs.step hsound h
    exact deposits_accounted env govAddr hsound ops _ hs'

/-! ## A proposal from genesis -/

/-- The gov module at `[3]`, with the burner permission. -/
def govPerms (name : String) : Option PermissionsForAddress :=
  if name = moduleName then some ⟨[3], [burner]⟩ else none

/-- Proposals whose handler changes nothing, a tally that never passes and a `MinDeposit` of
nothing, so that the first deposit starts the voting period. -/
def govEnv : Env Unit where
  toLower := id
  permAddrs := govPerms
  router _ := some some
  tally _ _ := (false, false)
  params := ⟨[], 10, 10⟩

/-- The account at `[9]` holds all 10 units of stake, the gov module account at `[3]` nothing,
and nothing is proposed yet. -/
def govGenesis : State Unit where
  bank := ⟨((∅ : Accounts).insert [9] ⟨stake 10, .base⟩).insert [3] ⟨[], .module [burner]⟩, stake 10⟩
  proposals := ∅
  deposits := ∅
  votes := ∅
  inactiveQueue := []
  activeQueue := []
  proposalID := some 1

theorem govEnv_sound : govEnv.Sound [3] where
  gov_address := rfl
  router _ handler bank bank' hr hb h := by
    cases hr
    cases h
    exact ⟨hb, rfl⟩

theorem govGenesis_accounted : Accounted [3] govGenesis where
  wellFormed := by
    refine ⟨SortedCoins.insert (SortedCoins.insert (fun _ _ h => by cases h) [9] ?_) [3]
      List.Pairwise.nil, List.pairwise_singleton _ _⟩
    exact List.pairwise_singleton _ _
  govAccount := ⟨_, rfl, rfl⟩
  deposits_sorted _ _ h := by cases h
  depositors _ h := absurd h (AList.notMem_empty _)
  module_eq d := by
    have hgov : getCoins govGenesis.bank.accounts [3] = [] := rfl
    rw [hgov, Coins.balance_nil]
    rfl
  proposalIDs _ _ h := by cases h
  open_deposits _ h := absurd h (AList.notMem_empty _)
  totalDeposit_sorted _ _ h := by cases h
  totalDeposit_eq _ _ h := by cases h
  fresh _ _ _ h := absurd h (AList.notMem_empty _)

theorem deposits_accounted_genesis :
    govEnv.Sound [3] ∧ Accounted [3] govGenesis ∧
      Accounted [3] (Gov.run govEnv govGenesis
        [(0, .submitProposal () [9] (stake 10)), (5, .vote 1 [9] .yes), (20, .endBlock)]) :=
  ⟨govEnv_sound, govGenesis_accounted,
    deposits_accounted govEnv [3] govEnv_sound _ _ govGenesis_accounted⟩

end Barkis.Gov
