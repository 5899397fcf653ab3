import Barkis.Supply.Keeper
import Barkis.Lib.Check

/-!
# The asset module

`x/asset`: `IssueMsg` stores a token under its lower-cased symbol and mints its whole supply to
its owner; `MintMsg` lets the owner of a mintable token mint more of it, up to `MaxTotalSupply`.
The token store and the supply keeper's stores are one state. A message that fails
`ValidateBasic` is turned away, and one whose handler returns an error or panics leaves no
write behind (the message cache of `runTx`): both are `none`. The token key
`TokenKeyPrefix ++ symbol` is injective, so the store is a map from symbols; the ante handler,
which moves fees between accounts but neither tokens nor the supply, is left out.

`IsUpgradeApplied(TokenDesLenLimitUpgradeHeight)`, which changes the length rules of symbols and
descriptions, is the flag `upgraded` given with each message.

* `TokenSupply.run`: every stored token's `TotalSupply` lies in `[0, MaxTotalSupply]` and is the
  supply of its symbol, provided that no symbol a token could still be issued under has a supply.
* `deliverMsg_mint`: a mint raises one token's `TotalSupply` and its denom's supply by the amount,
  with no `int64` overflow, and changes nothing else of the token.
* `issue_taken_denom_breaks_supply`: without the proviso, issuing a token whose symbol already
  has a supply gives a `TotalSupply` below the supply.
-/

namespace Barkis.Asset

open SortedMerge Bank Supply

/-- `sdk.AddrLen`. -/
def addrLen : Nat := 20

/-- `sdk.DefaultBondDenom`. -/
def defaultBondDenom : String := "ubarkis"

/-- `sdk.DefaultBondDenomName`. -/
def defaultBondDenomName : String := "barkis"

/-- `types.ModuleName`, the module account that mints. -/
def moduleName : String := "asset"

/-- `auth.FeeCollectorName`. -/
def feeCollectorName : String := "fee_collector"

/-- `MaxTokenNameLength`. -/
def maxTokenNameLength : Nat := 32

/-- `MaxTokenSymbolLength`. -/
def maxTokenSymbolLength : Nat := 12

/-- `MinTokenSymbolLength`. -/
def minTokenSymbolLength : Nat := 3

/-- `MaxTokenDesLenLimit`. -/
def maxTokenDesLenLimit : Nat := 128

/-- `NewMaxTokenDesLenLimit`. -/
def newMaxTokenDesLenLimit : Nat := 1024

/-- `MaxTotalSupply`. -/
def maxTotalSupply : Int64 := 9000000000000000000

/-- `types.Token`. -/
structure Token where
  symbol : String
  name : String
  decimal : Int8
  totalSupply : Int64
  mintable : Bool
  description : String
  owner : AccAddress

/-- `types.Params`. -/
structure Params where
  maxDecimal : Int8
  issueFee : Coins
  mintFee : Coins

/-- The token store by symbol, the parameters, and the supply keeper's stores. -/
structure State where
  params : Params
  tokens : AList fun _ : String => Token
  supply : Supply.State

/-- `IssueMsg`. -/
structure IssueMsg where
  «from» : AccAddress
  name : String
  symbol : String
  totalSupply : Int64
  mintable : Bool
  decimal : Int8
  description : String

/-- `MintMsg`. -/
structure MintMsg where
  «from» : AccAddress
  symbol : String
  amount : Int64

/-- The asset messages. -/
inductive Msg
  | issue (msg : IssueMsg)
  | mint (msg : MintMsg)

/-! ## `ValidateBasic` -/

/-- `isLowerCaseAlpha`: the symbol matches `^[a-z]+$`. -/
def isLowerCaseAlpha (symbol : String) : Bool :=
  !symbol.toList.isEmpty && symbol.toList.all fun c => 'a' ≤ c && c ≤ 'z'

variable (toLower : String → String)

/-- `validateTokenSymbol`; lengths are in bytes, as Go's `len`. -/
def validateTokenSymbol (upgraded : Bool) (symbol : String) : Except String Unit := do
  if upgraded then
    if maxTokenSymbolLength < symbol.utf8ByteSize ∨ symbol.utf8ByteSize < minTokenSymbolLength then
      throw s!"token symbol length shoud be in [{minTokenSymbolLength}, {maxTokenSymbolLength}]"
  else if symbol.utf8ByteSize = 0 ∨ maxTokenSymbolLength < symbol.utf8ByteSize then
    throw s!"token symbol length shoud be in (0, {maxTokenSymbolLength}]"
  if toLower symbol = defaultBondDenom ∨ toLower symbol = defaultBondDenomName then
    throw s!"token symbol should be identical to native token {defaultBondDenom}/{defaultBondDenomName}"
  if !isLowerCaseAlpha symbol then
    throw "token symbol should only contains lower case alphabet"

/-- `IssueMsg.ValidateBasic`. -/
def IssueMsg.validateBasic (upgraded : Bool) (msg : IssueMsg) : Except String Unit := do
  if msg.from.length ≠ addrLen then
    throw s!"sender address length should be {addrLen}"
  if msg.name.utf8ByteSize = 0 ∨ maxTokenNameLength < msg.name.utf8ByteSize then
    throw s!"token name length shoud be in (0, {maxTokenNameLength}]"
  if msg.name = defaultBondDenom ∨ msg.name = defaultBondDenomName then
    throw s!"token name should be identical to native token {defaultBondDenom}/{defaultBondDenomName}"
  validateTokenSymbol toLower upgraded (toLower msg.symbol)
  if msg.totalSupply < 0 ∨ maxTotalSupply < msg.totalSupply then
    throw s!"total supply should be in [0, {maxTotalSupply}]"
  if msg.decimal < 0 then
    throw ("token decimal " ++ toString msg.decimal ++ " is negative")
  let desLenLimitation := if upgraded then newMaxTokenDesLenLimit else maxTokenDesLenLimit
  if desLenLimitation < msg.description.utf8ByteSize then
    throw ("token description length " ++ toString msg.description.utf8ByteSize ++
      " should be less than " ++ toString desLenLimitation)

/-- `MintMsg.ValidateBasic`: the symbol is checked as it is, not lower-cased. -/
def MintMsg.validateBasic (upgraded : Bool) (msg : MintMsg) : Except String Unit := do
  if msg.from.length ≠ addrLen then
    throw s!"sender address length should be {addrLen}"
  validateTokenSymbol toLower upgraded msg.symbol
  if msg.amount ≤ 0 ∨ maxTotalSupply < msg.amount then
    throw s!"mint amount should be in (0, {maxTotalSupply}]"

/-- `Msg.ValidateBasic`. -/
def Msg.validateBasic (upgraded : Bool) : Msg → Except String Unit
  | .issue msg => msg.validateBasic toLower upgraded
  | .mint msg => msg.validateBasic toLower upgraded

/-! ## The keeper and the handler -/

/-- `SetToken`: panics on a symbol already stored. -/
def setToken (tokens : AList fun _ : String => Token) (token : Token) :
    Option (AList fun _ : String => Token) :=
  if token.symbol ∈ tokens then none else some (tokens.insert token.symbol token)

/-- `UpdateToken`: panics on a symbol not stored. -/
def updateToken (tokens : AList fun _ : String => Token) (token : Token) :
    Option (AList fun _ : String => Token) :=
  if token.symbol ∈ tokens then some (tokens.insert token.symbol token) else none

/-- `GetToken`. -/
def getToken (tokens : AList fun _ : String => Token) (symbol : String) : Option Token :=
  tokens.lookup symbol

/-- `IsTokenExist`. -/
def isTokenExist (tokens : AList fun _ : String => Token) (symbol : String) : Bool :=
  (tokens.lookup symbol).isSome

variable (permAddrs : String → Option PermissionsForAddress) (blockTime : Int64)

/-- `handleIssueMsg`: the token is written before the fee is charged and its supply minted to the
owner, as one `Coins` literal of `NewCoin(symbol, TotalSupply)`. -/
def handleIssueMsg (s : State) (msg : IssueMsg) : Option State :=
  if s.params.maxDecimal < msg.decimal then none
  else if isTokenExist s.tokens (toLower msg.symbol) then none
  else do
    let token : Token :=
      ⟨toLower msg.symbol, msg.name, msg.decimal, msg.totalSupply, msg.mintable, msg.description,
        msg.from⟩
    let tokens ← setToken s.tokens token
    let supply ← sendCoinsFromAccountToModule toLower permAddrs blockTime s.supply msg.from feeCollectorName
      s.params.issueFee
    let mintedToken ← newCoin token.symbol (SdkInt.newInt token.totalSupply)
    let supply ← mintCoins toLower permAddrs supply moduleName [mintedToken]
    let supply ← sendCoinsFromModuleToAccount toLower permAddrs blockTime supply moduleName token.owner
      [mintedToken]
    pure { s with tokens, supply }

/-- `handleMintMsg`: the token is read under the message's symbol as it is; the room left under
`MaxTotalSupply` and the new `TotalSupply` are `int64` arithmetic. -/
def handleMintMsg (s : State) (msg : MintMsg) : Option State :=
  match getToken s.tokens msg.symbol with
  | none => none
  | some token =>
    if !token.mintable then none
    else if token.owner ≠ msg.from then none
    else
      let possibleMintAmount := maxTotalSupply - token.totalSupply
      if possibleMintAmount < msg.amount then none
      else do
        let supply ← sendCoinsFromAccountToModule toLower permAddrs blockTime s.supply msg.from
          feeCollectorName s.params.mintFee
        let token := { token with totalSupply := msg.amount + token.totalSupply }
        let tokens ← updateToken s.tokens token
        let mintedToken ← newCoin token.symbol (SdkInt.newInt msg.amount)
        let supply ← mintCoins toLower permAddrs supply moduleName [mintedToken]
        let supply ← sendCoinsFromModuleToAccount toLower permAddrs blockTime supply moduleName token.owner
          [mintedToken]
        pure { s with tokens, supply }

/-- `NewHandler`. -/
def handler (s : State) : Msg → Option State
  | .issue msg => handleIssueMsg toLower permAddrs blockTime s msg
  | .mint msg => handleMintMsg toLower permAddrs blockTime s msg

/-- `DeliverTx` of a transaction with one asset message. -/
def deliverMsg (s : State) (upgraded : Bool) (msg : Msg) : Option State :=
  match msg.validateBasic toLower upgraded with
  | .error _ => none
  | .ok () => handler toLower permAddrs blockTime s msg

/-- A run of transactions, each with the upgrade flag and the time of its block. -/
def run (s : State) (msgs : List (Bool × Int64 × Msg)) : State :=
  msgs.foldl (fun s msg => (deliverMsg toLower permAddrs msg.2.1 s msg.1 msg.2.2).getD s) s

/-! ## What `ValidateBasic` guarantees -/

variable {toLower blockTime}

open Check

/-- What `validateTokenSymbol` accepts. -/
theorem isOk_validateTokenSymbol {upgraded : Bool} {symbol : String} :
    (validateTokenSymbol toLower upgraded symbol).isOk = true ↔
      (if upgraded then minTokenSymbolLength ≤ symbol.utf8ByteSize else symbol.utf8ByteSize ≠ 0) ∧
        symbol.utf8ByteSize ≤ maxTokenSymbolLength ∧
        ¬(toLower symbol = defaultBondDenom ∨ toLower symbol = defaultBondDenomName) ∧
        isLowerCaseAlpha symbol = true := by
  cases upgraded <;>
    simp only [validateTokenSymbol, isOk_ite_throw_bind, isOk_ite_throw, Bool.false_eq_true, if_true,
      if_false, not_or, not_lt, Bool.not_eq_true', Bool.not_eq_false] <;> tauto

/-- The symbol rule after the upgrade is the stricter one. -/
theorem validateTokenSymbol_false_of_isOk {upgraded : Bool} {symbol : String}
    (h : (validateTokenSymbol toLower upgraded symbol).isOk = true) :
    (validateTokenSymbol toLower false symbol).isOk = true := by
  cases upgraded
  · exact h
  · obtain ⟨hmin, hmax, hbond, halpha⟩ := isOk_validateTokenSymbol.1 h
    have hmin' : symbol.utf8ByteSize ≠ 0 := by
      simp only [if_true, minTokenSymbolLength] at hmin
      omega
    exact isOk_validateTokenSymbol.2 ⟨hmin', hmax, hbond, halpha⟩

theorem IssueMsg.isOk_validateBasic {upgraded : Bool} {msg : IssueMsg}
    (h : (msg.validateBasic toLower upgraded).isOk = true) :
    (validateTokenSymbol toLower upgraded (toLower msg.symbol)).isOk = true ∧
      0 ≤ msg.totalSupply ∧ msg.totalSupply ≤ maxTotalSupply := by
  simp only [IssueMsg.validateBasic, isOk_ite_throw_bind, isOk_ite_throw, isOk_bind] at h
  obtain ⟨-, -, -, hsymbol, hsupply, -⟩ := h
  simp only [not_or, Int64.not_lt] at hsupply
  exact ⟨hsymbol, hsupply⟩

theorem MintMsg.isOk_validateBasic {upgraded : Bool} {msg : MintMsg}
    (h : (msg.validateBasic toLower upgraded).isOk = true) :
    (validateTokenSymbol toLower upgraded msg.symbol).isOk = true ∧
      0 < msg.amount ∧ msg.amount ≤ maxTotalSupply := by
  simp only [MintMsg.validateBasic, isOk_ite_throw_bind, isOk_ite_throw, isOk_bind] at h
  obtain ⟨-, hsymbol, hamount⟩ := h
  simp only [not_or, Int64.not_le, Int64.not_lt] at hamount
  exact ⟨hsymbol, hamount⟩

theorem deliverMsg_eq_some {s s' : State} {upgraded : Bool} {msg : Msg}
    (h : deliverMsg toLower permAddrs blockTime s upgraded msg = some s') :
    (msg.validateBasic toLower upgraded).isOk = true ∧ handler toLower permAddrs blockTime s msg = some s' := by
  unfold deliverMsg at h
  split at h
  · cases h
  · rename_i hv
    exact ⟨by rw [hv]; rfl, h⟩

/-! ## The handlers, step by step -/

theorem setToken_eq_some {tokens tokens' : AList fun _ : String => Token} {token : Token}
    (h : setToken tokens token = some tokens') :
    token.symbol ∉ tokens ∧ tokens' = tokens.insert token.symbol token := by
  unfold setToken at h
  split_ifs at h with hmem
  cases h
  exact ⟨hmem, rfl⟩

theorem updateToken_eq_some {tokens tokens' : AList fun _ : String => Token} {token : Token}
    (h : updateToken tokens token = some tokens') :
    token.symbol ∈ tokens ∧ tokens' = tokens.insert token.symbol token := by
  unfold updateToken at h
  split_ifs at h with hmem
  cases h
  exact ⟨hmem, rfl⟩

/-- Both handlers end with the same three supply keeper calls: the fee to the fee collector, the
minted coin to the asset module, and the coin on to the owner. Only the mint moves the supply. -/
theorem supply_chargeMintSend {s₀ s₁ s₂ s₃ : Supply.State} {sender owner : AccAddress}
    {fee : Coins} {coin : Coin} (hs : s₀.WellFormed)
    (h₁ : sendCoinsFromAccountToModule toLower permAddrs blockTime s₀ sender feeCollectorName fee = some s₁)
    (h₂ : mintCoins toLower permAddrs s₁ moduleName [coin] = some s₂)
    (h₃ : sendCoinsFromModuleToAccount toLower permAddrs blockTime s₂ moduleName owner [coin] = some s₃) :
    s₃.WellFormed ∧
      ∀ d, Coins.balance s₃.supply d = Coins.balance s₀.supply d + Coins.balance [coin] d := by
  have m₁ := sendCoinsFromAccountToModule_moves hs h₁
  have m₂ := mintCoins_moves m₁.wellFormed h₂
  have m₃ := sendCoinsFromModuleToAccount_moves m₂.wellFormed h₃
  have m := (m₁.trans m₂).trans m₃
  refine ⟨m.wellFormed, fun d => ?_⟩
  rw [m.supply_eq]
  simp

/-- What a successful issue has done: the token did not exist and is now stored under its
lower-cased symbol, and the supply keeper made its three calls. -/
theorem handleIssueMsg_eq_some {s s' : State} {msg : IssueMsg}
    (h : handleIssueMsg toLower permAddrs blockTime s msg = some s') :
    s.tokens.lookup (toLower msg.symbol) = none ∧
      s'.tokens = s.tokens.insert (toLower msg.symbol)
        ⟨toLower msg.symbol, msg.name, msg.decimal, msg.totalSupply, msg.mintable,
          msg.description, msg.from⟩ ∧
      ∃ s₁ s₂ coin,
        sendCoinsFromAccountToModule toLower permAddrs blockTime s.supply msg.from feeCollectorName
          s.params.issueFee = some s₁ ∧
        newCoin (toLower msg.symbol) (SdkInt.newInt msg.totalSupply) = some coin ∧
        mintCoins toLower permAddrs s₁ moduleName [coin] = some s₂ ∧
        sendCoinsFromModuleToAccount toLower permAddrs blockTime s₂ moduleName msg.from [coin] = some s'.supply := by
  unfold handleIssueMsg at h
  split_ifs at h with hdecimal hexist
  simp only [bind, Option.bind_eq_some_iff, pure, Option.some.injEq] at h
  obtain ⟨tokens, hset, s₁, h₁, coin, hcoin, s₂, h₂, s₃, h₃, rfl⟩ := h
  have hnone : s.tokens.lookup (toLower msg.symbol) = none := by
    simpa [isTokenExist] using hexist
  exact ⟨hnone, (setToken_eq_some hset).2, s₁, s₂, coin, h₁, hcoin, h₂, h₃⟩

/-- What a successful mint has done: the stored token is mintable, owned by the sender and has
room for the amount; it is written back with the amount added, and the supply keeper made its
three calls. -/
theorem handleMintMsg_eq_some {s s' : State} {msg : MintMsg}
    (h : handleMintMsg toLower permAddrs blockTime s msg = some s') :
    ∃ token, s.tokens.lookup msg.symbol = some token ∧ token.owner = msg.from ∧
      ¬maxTotalSupply - token.totalSupply < msg.amount ∧
      s'.tokens = s.tokens.insert token.symbol { token with totalSupply := msg.amount + token.totalSupply } ∧
      ∃ s₁ s₂ coin,
        sendCoinsFromAccountToModule toLower permAddrs blockTime s.supply msg.from feeCollectorName
          s.params.mintFee = some s₁ ∧
        newCoin token.symbol (SdkInt.newInt msg.amount) = some coin ∧
        mintCoins toLower permAddrs s₁ moduleName [coin] = some s₂ ∧
        sendCoinsFromModuleToAccount toLower permAddrs blockTime s₂ moduleName token.owner [coin] = some s'.supply := by
  unfold handleMintMsg at h
  split at h
  · cases h
  · rename_i token htoken
    dsimp only at h
    split_ifs at h with hmintable howner hroom
    simp only [bind, Option.bind_eq_some_iff, pure, Option.some.injEq] at h
    obtain ⟨s₁, h₁, tokens, hupdate, coin, hcoin, s₂, h₂, s₃, h₃, rfl⟩ := h
    exact ⟨token, htoken, not_not.1 howner, hroom, (updateToken_eq_some hupdate).2, s₁, s₂, coin, h₁,
      hcoin, h₂, h₃⟩

/-! ## The `int64` arithmetic of a mint -/

theorem toInt_maxTotalSupply : maxTotalSupply.toInt = 9000000000000000000 := by decide

/-- Under the bounds the handler and `ValidateBasic` check, the room left under `MaxTotalSupply`
and the new total are exact, and the new total stays in `[0, MaxTotalSupply]`. -/
theorem mint_exact {total amount : Int64} (h0 : 0 ≤ total) (hmax : total ≤ maxTotalSupply)
    (hpos : 0 < amount) (hroom : ¬maxTotalSupply - total < amount) :
    (maxTotalSupply - total).toInt = maxTotalSupply.toInt - total.toInt ∧
      (amount + total).toInt = amount.toInt + total.toInt ∧
      0 ≤ amount + total ∧ amount + total ≤ maxTotalSupply := by
  rw [Int64.le_iff_toInt_le, Int64.toInt_zero] at h0
  rw [Int64.le_iff_toInt_le, toInt_maxTotalSupply] at hmax
  rw [Int64.lt_iff_toInt_lt, Int64.toInt_zero] at hpos
  have hsub : (maxTotalSupply - total).toInt = maxTotalSupply.toInt - total.toInt := by
    rw [Int64.toInt_sub, toInt_maxTotalSupply]
    exact Int.bmod_eq_of_le (by norm_num; omega) (by norm_num; omega)
  rw [Int64.not_lt, Int64.le_iff_toInt_le, hsub, toInt_maxTotalSupply] at hroom
  have hadd : (amount + total).toInt = amount.toInt + total.toInt := by
    rw [Int64.toInt_add]
    exact Int.bmod_eq_of_le (by norm_num; omega) (by norm_num; omega)
  refine ⟨hsub, hadd, ?_, ?_⟩
  · rw [Int64.le_iff_toInt_le, Int64.toInt_zero, hadd]
    omega
  · rw [Int64.le_iff_toInt_le, hadd, toInt_maxTotalSupply]
    omega

/-! ## Tokens and the supply -/

variable (toLower) in
/-- A denom that `IssueMsg` can take as a symbol: one that passes `validateTokenSymbol` before the
upgrade, whose rule accepts every symbol the later one does. -/
def IsSymbol (d : String) : Prop := (validateTokenSymbol toLower false d).isOk = true

variable (toLower) in
/-- Every stored token is stored under its symbol, has a `TotalSupply` in `[0, MaxTotalSupply]`
and is the whole supply of its symbol; and no symbol without a token has a supply. -/
structure TokenSupply (s : State) : Prop where
  wellFormed : s.supply.WellFormed
  symbol_eq : ∀ symbol token, s.tokens.lookup symbol = some token → token.symbol = symbol
  totalSupply_mem : ∀ symbol token, s.tokens.lookup symbol = some token →
    0 ≤ token.totalSupply ∧ token.totalSupply ≤ maxTotalSupply
  supply_eq : ∀ symbol token, s.tokens.lookup symbol = some token →
    Coins.balance s.supply.supply symbol = token.totalSupply.toInt
  unissued : ∀ d, IsSymbol toLower d → s.tokens.lookup d = none →
    Coins.balance s.supply.supply d = 0

theorem TokenSupply.handleIssueMsg {s s' : State} {upgraded : Bool} {msg : IssueMsg}
    (hs : TokenSupply toLower s) (hv : (msg.validateBasic toLower upgraded).isOk = true)
    (h : handleIssueMsg toLower permAddrs blockTime s msg = some s') : TokenSupply toLower s' := by
  obtain ⟨hsymbol, htotal0, htotalMax⟩ := IssueMsg.isOk_validateBasic hv
  obtain ⟨hnone, htokens, s₁, s₂, coin, h₁, hcoin, h₂, h₃⟩ := handleIssueMsg_eq_some permAddrs h
  obtain ⟨hwf, hsupply⟩ := supply_chargeMintSend permAddrs hs.wellFormed h₁ h₂ h₃
  -- the new symbol had no supply, and only its supply moves
  have hzero : Coins.balance s.supply.supply (toLower msg.symbol) = 0 :=
    hs.unissued _ (validateTokenSymbol_false_of_isOk hsymbol) hnone
  have hmoved : ∀ d, Coins.balance s'.supply.supply d =
      Coins.balance s.supply.supply d + if toLower msg.symbol = d then msg.totalSupply.toInt else 0 := by
    intro d
    rw [hsupply, Coins.balance_singleton, newCoin_eq_some hcoin]
    rfl
  refine ⟨hwf, ?_, ?_, ?_, ?_⟩
  · intro symbol token hl
    rw [htokens, Ledger.lookup_insert_ite] at hl
    split_ifs at hl with hd
    · cases hl
      exact hd.symm
    · exact hs.symbol_eq symbol token hl
  · intro symbol token hl
    rw [htokens, Ledger.lookup_insert_ite] at hl
    split_ifs at hl with hd
    · cases hl
      exact ⟨htotal0, htotalMax⟩
    · exact hs.totalSupply_mem symbol token hl
  · intro symbol token hl
    rw [htokens, Ledger.lookup_insert_ite] at hl
    rw [hmoved]
    by_cases hd : symbol = toLower msg.symbol
    · rw [if_pos hd] at hl
      cases hl
      rw [if_pos hd.symm, hd, hzero, zero_add]
    · rw [if_neg hd] at hl
      rw [if_neg (Ne.symm hd), add_zero]
      exact hs.supply_eq symbol token hl
  · intro d hd hl
    rw [htokens, Ledger.lookup_insert_ite] at hl
    split_ifs at hl with hdd
    rw [hmoved, if_neg (Ne.symm hdd), add_zero]
    exact hs.unissued d hd hl

/-- A successful mint from a state with the invariant: the token under the message's symbol is
written back with the amount added, exactly and within `MaxTotalSupply`, and only the supply of
that symbol moves, by the amount. -/
theorem handleMintMsg_spec {s s' : State} {msg : MintMsg} (hs : TokenSupply toLower s)
    (hpos : 0 < msg.amount) (h : handleMintMsg toLower permAddrs blockTime s msg = some s') :
    ∃ token, s.tokens.lookup msg.symbol = some token ∧
      s'.tokens = s.tokens.insert msg.symbol { token with totalSupply := msg.amount + token.totalSupply } ∧
      (maxTotalSupply - token.totalSupply).toInt = maxTotalSupply.toInt - token.totalSupply.toInt ∧
      (msg.amount + token.totalSupply).toInt = msg.amount.toInt + token.totalSupply.toInt ∧
      0 ≤ msg.amount + token.totalSupply ∧ msg.amount + token.totalSupply ≤ maxTotalSupply ∧
      s'.supply.WellFormed ∧
      ∀ d, Coins.balance s'.supply.supply d =
        Coins.balance s.supply.supply d + if d = msg.symbol then msg.amount.toInt else 0 := by
  obtain ⟨token, htoken, -, hroom, htokens, s₁, s₂, coin, h₁, hcoin, h₂, h₃⟩ :=
    handleMintMsg_eq_some permAddrs h
  have hsymbol : token.symbol = msg.symbol := hs.symbol_eq _ _ htoken
  obtain ⟨h0, hmax⟩ := hs.totalSupply_mem _ _ htoken
  obtain ⟨hsub, hadd, hnew0, hnewMax⟩ := mint_exact h0 hmax hpos hroom
  obtain ⟨hwf, hsupply⟩ := supply_chargeMintSend permAddrs hs.wellFormed h₁ h₂ h₃
  refine ⟨token, htoken, hsymbol ▸ htokens, hsub, hadd, hnew0, hnewMax, hwf, fun d => ?_⟩
  rw [hsupply, Coins.balance_singleton, newCoin_eq_some hcoin]
  simp only [hsymbol, eq_comm (a := msg.symbol)]
  rfl

theorem TokenSupply.handleMintMsg {s s' : State} {upgraded : Bool} {msg : MintMsg}
    (hs : TokenSupply toLower s) (hv : (msg.validateBasic toLower upgraded).isOk = true)
    (h : handleMintMsg toLower permAddrs blockTime s msg = some s') : TokenSupply toLower s' := by
  obtain ⟨-, hpos, -⟩ := MintMsg.isOk_validateBasic hv
  obtain ⟨token, htoken, htokens, -, hadd, hnew0, hnewMax, hwf, hsupply⟩ :=
    handleMintMsg_spec permAddrs hs hpos h
  refine ⟨hwf, ?_, ?_, ?_, ?_⟩
  · intro symbol token' hl
    rw [htokens, Ledger.lookup_insert_ite] at hl
    split_ifs at hl with hd
    · cases hl
      rw [hd]
      exact hs.symbol_eq _ token htoken
    · exact hs.symbol_eq symbol token' hl
  · intro symbol token' hl
    rw [htokens, Ledger.lookup_insert_ite] at hl
    split_ifs at hl with hd
    · cases hl
      exact ⟨hnew0, hnewMax⟩
    · exact hs.totalSupply_mem symbol token' hl
  · intro symbol token' hl
    rw [htokens, Ledger.lookup_insert_ite] at hl
    rw [hsupply]
    split_ifs at hl ⊢ with hd
    · cases hl
      rw [hd, hs.supply_eq _ _ htoken, hadd, add_comm]
    · rw [add_zero]
      exact hs.supply_eq symbol token' hl
  · intro d hd hl
    rw [htokens, Ledger.lookup_insert_ite] at hl
    split_ifs at hl with hdd
    rw [hsupply, if_neg hdd, add_zero]
    exact hs.unissued d hd hl

theorem TokenSupply.deliverMsg {s s' : State} {upgraded : Bool} {msg : Msg}
    (hs : TokenSupply toLower s) (h : deliverMsg toLower permAddrs blockTime s upgraded msg = some s') :
    TokenSupply toLower s' := by
  obtain ⟨hv, h⟩ := deliverMsg_eq_some permAddrs h
  cases msg with
  | issue msg => exact hs.handleIssueMsg permAddrs hv h
  | mint msg => exact hs.handleMintMsg permAddrs hv h

theorem TokenSupply.run (msgs : List (Bool × Int64 × Msg)) {s : State} (hs : TokenSupply toLower s) :
    TokenSupply toLower (run toLower permAddrs s msgs) := by
  induction msgs generalizing s with
  | nil => exact hs
  | cons msg msgs ih =>
    apply ih
    show TokenSupply toLower ((Asset.deliverMsg toLower permAddrs msg.2.1 s msg.1 msg.2.2).getD s)
    cases h : Asset.deliverMsg toLower permAddrs msg.2.1 s msg.1 msg.2.2 with
    | none => exact hs
    | some s' => exact hs.deliverMsg permAddrs h

/-- What a mint changes: the `TotalSupply` of the one token under the message's symbol, by an
`int64` sum that is exact as is the room left under `MaxTotalSupply`, and the supply of that symbol
by the amount. The token keeps every other field, and no other token changes. -/
structure Minted (s s' : State) (msg : MintMsg) : Prop where
  token : ∃ token, s.tokens.lookup msg.symbol = some token ∧
    s'.tokens.lookup msg.symbol = some { token with totalSupply := msg.amount + token.totalSupply } ∧
    (maxTotalSupply - token.totalSupply).toInt = maxTotalSupply.toInt - token.totalSupply.toInt ∧
    (msg.amount + token.totalSupply).toInt = msg.amount.toInt + token.totalSupply.toInt
  others : ∀ symbol, symbol ≠ msg.symbol → s'.tokens.lookup symbol = s.tokens.lookup symbol
  supply_eq : ∀ d, Coins.balance s'.supply.supply d =
    Coins.balance s.supply.supply d + if d = msg.symbol then msg.amount.toInt else 0

theorem deliverMsg_mint {s s' : State} {upgraded : Bool} {msg : MintMsg}
    (hs : TokenSupply toLower s) (h : deliverMsg toLower permAddrs blockTime s upgraded (.mint msg) = some s') :
    Minted s s' msg := by
  obtain ⟨hv, h⟩ := deliverMsg_eq_some permAddrs h
  obtain ⟨-, hpos, -⟩ := MintMsg.isOk_validateBasic hv
  obtain ⟨token, htoken, htokens, hsub, hadd, -, -, -, hsupply⟩ := handleMintMsg_spec permAddrs hs hpos h
  refine ⟨⟨token, htoken, ?_, hsub, hadd⟩, fun symbol hd => ?_, hsupply⟩
  · rw [htokens, AList.lookup_insert]
  · rw [htokens, AList.lookup_insert_ne hd]

variable (toLower) in
/-- The asset invariant: from a state where every token is stored under its symbol with a
`TotalSupply` in `[0, MaxTotalSupply]` that is the supply of its symbol, and no symbol without a
token has a supply, every run of issues and mints ends in such a state; and a mint changes one
token's `TotalSupply` and its symbol's supply by the amount, exactly, and nothing else. -/
theorem asset_token_supply :
    (∀ (s : State) (msgs : List (Bool × Int64 × Msg)), TokenSupply toLower s →
      TokenSupply toLower (run toLower permAddrs s msgs)) ∧
    ∀ (s s' : State) (blockTime : Int64) (upgraded : Bool) (msg : MintMsg), TokenSupply toLower s →
      deliverMsg toLower permAddrs blockTime s upgraded (.mint msg) = some s' → Minted s s' msg :=
  ⟨fun _ msgs hs => hs.run permAddrs msgs, fun _ _ _ _ _ hs h => deliverMsg_mint permAddrs hs h⟩

/-! ## Issuing a symbol that already has a supply -/

/-- The asset module at `[2]`, which mints, and the fee collector at `[3]`. -/
def assetPerms (name : String) : Option PermissionsForAddress :=
  if name = moduleName then some ⟨[2], [minter]⟩
  else if name = feeCollectorName then some ⟨[3], []⟩
  else none

/-- No tokens, no coins, and no fees. -/
def noAssets : State := ⟨⟨8, [], []⟩, ∅, ⟨∅, []⟩⟩

/-- An issue of 10 units of `"abc"` by `[1, …, 1]`. -/
def issueAbc : IssueMsg := ⟨List.replicate addrLen 1, "abc token", "abc", 10, true, 0, ""⟩

/-- A mint of 5 more units of `"abc"` by its owner. -/
def mintAbc : MintMsg := ⟨List.replicate addrLen 1, "abc", 5⟩

theorem noAssets_tokenSupply : TokenSupply id noAssets where
  wellFormed := ⟨fun _ _ h => (by cases h), List.Pairwise.nil⟩
  symbol_eq _ _ h := by cases h
  totalSupply_mem _ _ h := by cases h
  supply_eq _ _ h := by cases h
  unissued _ _ _ := rfl

theorem asset_token_supply_issue_mint :
    TokenSupply id noAssets ∧
      TokenSupply id (run id assetPerms noAssets [(false, 0, .issue issueAbc), (true, 0, .mint mintAbc)]) :=
  ⟨noAssets_tokenSupply, (asset_token_supply id assetPerms).1 _ _ noAssets_tokenSupply⟩

example :
    ((run id assetPerms noAssets [(false, 0, .issue issueAbc), (true, 0, .mint mintAbc)]).tokens.lookup
      "abc").map (fun token => token.totalSupply.toInt) = some 15 := by
  decide

/-- 5 units of `"abc"` held at `[9]` and no token `"abc"`. -/
def takenDenom : State :=
  ⟨⟨8, [], []⟩, ∅, ⟨(∅ : Accounts).insert [9] ⟨[⟨"abc", ⟨5, by decide⟩⟩], .base⟩, [⟨"abc", ⟨5, by decide⟩⟩]⟩⟩

/-- Every stored token (there is none) has a `TotalSupply` in `[0, MaxTotalSupply]` equal to the
supply of its symbol, but issuing `"abc"` stores a token of 10 units while the supply of `"abc"`
becomes 15. -/
theorem issue_taken_denom_breaks_supply :
    (∀ symbol token, takenDenom.tokens.lookup symbol = some token →
      0 ≤ token.totalSupply ∧ token.totalSupply ≤ maxTotalSupply ∧
        Coins.balance takenDenom.supply.supply token.symbol = token.totalSupply.toInt) ∧
      ((run id assetPerms takenDenom [(false, 0, .issue issueAbc)]).tokens.lookup "abc").map
        (fun token => token.totalSupply.toInt) = some 10 ∧
      Coins.balance (run id assetPerms takenDenom [(false, 0, .issue issueAbc)]).supply.supply "abc" = 15 :=
  ⟨fun _ _ h => (by cases h), by decide, by decide⟩

/-! ## Validated issues that panic -/

/-- An issue of 10 units of `"ab"`, a symbol of two letters. -/
def issueAb : IssueMsg := ⟨List.replicate addrLen 1, "ab token", "ab", 10, true, 0, ""⟩

/-- An issue of no units of `"abc"`. -/
def issueNoAbc : IssueMsg := { issueAbc with totalSupply := 0 }

/-- Two issues that pass `ValidateBasic` and then panic in `handleIssueMsg`, after the token is
written and the (empty) fee is paid. Before the upgrade a symbol of two letters passes, but
`NewCoin` rejects it as a denom. After the upgrade too, a `TotalSupply` of zero passes, and
`MintCoins` panics on the coin of zero units, which `AddCoins` refuses as invalid coins. -/
theorem issue_validated_panics :
    (issueAb.validateBasic id false).isOk = true ∧
      handleIssueMsg id assetPerms 0 noAssets issueAb = none ∧
      (∃ tokens supply,
        setToken noAssets.tokens ⟨"ab", "ab token", 0, 10, true, "", issueAb.from⟩ = some tokens ∧
        sendCoinsFromAccountToModule id assetPerms 0 noAssets.supply issueAb.from feeCollectorName
          noAssets.params.issueFee = some supply) ∧
      newCoin "ab" (SdkInt.newInt issueAb.totalSupply) = none ∧
      (issueNoAbc.validateBasic id true).isOk = true ∧
      handleIssueMsg id assetPerms 0 noAssets issueNoAbc = none ∧
      (∃ tokens supply,
        setToken noAssets.tokens ⟨"abc", "abc token", 0, 0, true, "", issueNoAbc.from⟩ =
          some tokens ∧
        sendCoinsFromAccountToModule id assetPerms 0 noAssets.supply issueNoAbc.from feeCollectorName
          noAssets.params.issueFee = some supply ∧
        newCoin "abc" (SdkInt.newInt issueNoAbc.totalSupply) = some ⟨"abc", SdkInt.zeroInt⟩ ∧
        mintCoins id assetPerms supply moduleName [⟨"abc", SdkInt.zeroInt⟩] = none) := by
  refine ⟨by decide, by decide, ⟨_, _, rfl, rfl⟩, by decide, by decide, by decide,
    ⟨_, _, rfl, rfl, by decide, ?_⟩⟩
  decide

end Barkis.Asset
