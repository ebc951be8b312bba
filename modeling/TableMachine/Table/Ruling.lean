import TableMachine.Table.Expansion
import TableMachine.Table.KeyGroups
import TableMachine.Table.Policy

/-!
# Rulings on dispatch keys

A dispatch key is a state, an event and a full combination. Every standing rule claims the keys of
its state and event whose combinations its condition covers. For each key that is claimed there is a
*ruling*: the contenders, which the overlap policy picks among the claimants. If all contenders lead
to one state the first of them wins the key, and the others repeat it; otherwise the key is
contested.
-/

namespace TableMachine

variable {σ ε χ ω : Type}

/-- What an event is dispatched by: the state, the event and the combination at hand. -/
structure DispatchKey (σ ε : Type) where
  /-- The current state. -/
  state : σ
  /-- The event. -/
  event : ε
  /-- One value of each family of the table. -/
  combination : Combination
deriving DecidableEq

/-- A rule together with what its condition covers. -/
structure Claimant (σ ε χ ω : Type) where
  /-- The rule. -/
  rule : Rule σ ε χ ω
  /-- What its condition covers. -/
  coverage : Coverage

/-- The claimants of a key that have the say, and the key. -/
structure Ruling (σ ε χ ω : Type) where
  /-- The key. -/
  key : DispatchKey σ ε
  /-- The rules that have the say, in order of declaration. -/
  contenders : List (Rule σ ε χ ω)

namespace Claimant

/-- The keys that the rule claims, in order of their combinations. -/
def keys (c : Claimant σ ε χ ω) : List (DispatchKey σ ε) :=
  c.coverage.combinations.toList.map fun combination => ⟨c.rule.state, c.rule.event, combination⟩

variable [DecidableEq σ] [DecidableEq ε]

/-- The rule claims the key. -/
def Claims (c : Claimant σ ε χ ω) (k : DispatchKey σ ε) : Prop :=
  c.rule.state = k.state ∧ c.rule.event = k.event ∧ c.coverage.Covers k.combination

instance (c : Claimant σ ε χ ω) (k : DispatchKey σ ε) : Decidable (c.Claims k) :=
  inferInstanceAs (Decidable (_ ∧ _ ∧ _))

/-- How specific the rule's claim to the key is; nothing if it does not claim the key. -/
def rankAt? (c : Claimant σ ε χ ω) (k : DispatchKey σ ε) : Option Nat :=
  if c.rule.state = k.state ∧ c.rule.event = k.event then c.coverage.rankOf? k.combination else none

/-- The standing rules whose conditions do not contradict themselves. -/
def ofRules (rules : List (Rule σ ε χ ω)) : List (Claimant σ ε χ ω) :=
  (Rule.standing rules).filterMap fun r =>
    match Rule.expansion rules r.condition with
    | .ok coverage => some ⟨r, coverage⟩
    | .error _ => none

/-- The keys that the claimants claim and none of `earlier` does, in order of the first claim. -/
def newKeys (earlier : List (Claimant σ ε χ ω)) : List (Claimant σ ε χ ω) → List (DispatchKey σ ε)
  | [] => []
  | c :: later =>
    (c.keys.filter fun k => ¬∃ e ∈ earlier, e.Claims k) ++ newKeys (c :: earlier) later

/-- All keys that are claimed, each once, in order of the first claim. -/
def claimedKeys (claimants : List (Claimant σ ε χ ω)) : List (DispatchKey σ ε) :=
  newKeys [] claimants

/-- The claimants of a key with their ranks there. -/
def ranked (claimants : List (Claimant σ ε χ ω)) (k : DispatchKey σ ε) :
    List (Rule σ ε χ ω × Nat) :=
  claimants.filterMap fun c => (c.rankAt? k).map fun rank => (c.rule, rank)

end Claimant

/-- The claimants that have the say: all of them, or those of the highest rank. -/
def OverlapPolicy.select (policy : OverlapPolicy) (ranked : List (Rule σ ε χ ω × Nat)) :
    List (Rule σ ε χ ω) :=
  match policy with
  | .strict => ranked.map Prod.fst
  | .mostSpecific =>
    let top := (ranked.map Prod.snd).max?.getD 0
    (ranked.filter fun claim => claim.2 = top).map Prod.fst

namespace Ruling

variable [DecidableEq σ] [DecidableEq ε]

/-- The rulings on all keys that the claimants claim. -/
def all (policy : OverlapPolicy) (claimants : List (Claimant σ ε χ ω)) : List (Ruling σ ε χ ω) :=
  (Claimant.claimedKeys claimants).map fun k => ⟨k, policy.select (Claimant.ranked claimants k)⟩

/-- All contenders lead to one state. -/
def Agreed (r : Ruling σ ε χ ω) : Prop :=
  ∀ first ∈ r.contenders.head?, ∀ other ∈ r.contenders, other.next = first.next

instance (r : Ruling σ ε χ ω) : Decidable r.Agreed :=
  match h : r.contenders with
  | [] => .isTrue fun _ hf => by simp [h] at hf
  | first :: rest =>
    decidable_of_iff (∀ other ∈ first :: rest, other.next = first.next) <| by
      simp [Agreed, h]

/-- The keys on which the contenders agree, each with the first of them. -/
def entries (rulings : List (Ruling σ ε χ ω)) : List (DispatchKey σ ε × Rule σ ε χ ω) :=
  rulings.filterMap fun r =>
    if r.Agreed then r.contenders.head?.map fun winner => (r.key, winner) else none

/-- The lists of two or more contenders that agree, each once. Contenders have different declared
keys, so these tell the lists apart. -/
def overlaps (rulings : List (Ruling σ ε χ ω)) : List (List (Rule σ ε χ ω)) :=
  distinctBy (List.map Rule.key) <|
    (rulings.filter fun r => r.Agreed ∧ Rule.isPlural r.contenders).map Ruling.contenders

/-- The rulings whose contenders do not agree. -/
def contested (rulings : List (Ruling σ ε χ ω)) : List (Ruling σ ε χ ω) :=
  rulings.filter fun r => ¬r.Agreed

end Ruling

end TableMachine
