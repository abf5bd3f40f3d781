import Mathlib.Algebra.Order.Group.Multiset
import Bluetalk.Js.Number
import Bluetalk.Theory.Positions

/-!
# Cards, rules and settings of UNO
-/

namespace Bluetalk.Uno

inductive Color
  | red
  | yellow
  | green
  | blue
  | wild
deriving DecidableEq

inductive Value
  | number (n : Nat)
  | skip
  | reverse
  | draw2
  | wild
  | wild4
deriving DecidableEq

structure Card where
  id : String
  color : Color
  value : Value

/-- `COLORS` -/
def colors : List Color := [.red, .yellow, .green, .blue]

/-- `color[0]` -/
def Color.initial : Color → String
  | .red => "r"
  | .yellow => "y"
  | .green => "g"
  | .blue => "b"
  | .wild => "w"

/-- The text of a value -/
def Value.name : Value → String
  | .number n => toString n
  | .skip => "skip"
  | .reverse => "reverse"
  | .draw2 => "draw2"
  | .wild => "wild"
  | .wild4 => "wild4"

/-- `NUMBER_VALUES.slice(1)` and `ACTION_VALUES` -/
def pairedValues : List Value :=
  [.number 1, .number 2, .number 3, .number 4, .number 5, .number 6, .number 7, .number 8,
    .number 9, .skip, .reverse, .draw2]

/-- Both cards of a value, the first with the number `seq` -/
def cardPair (color : Color) (value : Value) (seq : Nat) : List Card :=
  [⟨color.initial ++ "_" ++ value.name ++ "_a_" ++ toString seq, color, value⟩,
    ⟨color.initial ++ "_" ++ value.name ++ "_b_" ++ toString (seq + 1), color, value⟩]

def colorCards (color : Color) (seq : Nat) : List Card :=
  ⟨color.initial ++ "_0_" ++ toString seq, color, .number 0⟩ ::
    (pairedValues.zipIdx.flatMap fun (value, k) => cardPair color value (seq + 1 + 2 * k))

def wildPair (i seq : Nat) : List Card :=
  [⟨"wild_" ++ toString i ++ "_" ++ toString seq, .wild, .wild⟩,
    ⟨"wild4_" ++ toString i ++ "_" ++ toString (seq + 1), .wild, .wild4⟩]

def buildDeck : List Card :=
  (colors.zipIdx.flatMap fun (color, k) => colorCards color (25 * k)) ++
    (List.range 4).flatMap fun i => wildPair i (100 + 2 * i)

theorem length_buildDeck : buildDeck.length = 108 := by decide +kernel

def isSpecialStartCard (card : Card) : Bool :=
  card.color = .wild || card.value ∈ [.skip, .reverse, .draw2]

def cardPoints (card : Card) : Nat :=
  match card.value with
  | .number n => n
  | .skip | .reverse | .draw2 => 20
  | .wild | .wild4 => 50

end Bluetalk.Uno

/-!
## The rules and settings of UNO
-/

namespace Bluetalk.Uno

inductive GameMode
  | single
  | points
deriving DecidableEq

inductive HouseRules
  | official
  | casual
deriving DecidableEq

inductive LobbyAccess
  | invite
  | everyone
deriving DecidableEq

/-- The settings of a table -/
structure Settings where
  maxPlayers : Nat
  turnTimeSec : Nat
  autoStart : Bool
  gameMode : GameMode
  houseRules : HouseRules
  targetScore : Nat
  penaltyCards : Nat
  lobbyAccess : LobbyAccess

/-- Settings as they come in: the keys that are there, with `Number(value)` of the numeric ones and
the texts of the others. -/
structure SettingsInput where
  maxPlayers : Option Number
  turnTimeSec : Option Number
  autoStart : Option Bool
  gameMode : Option String
  houseRules : Option String
  targetScore : Option Number
  penaltyCards : Option Number
  lobbyAccess : Option String

def defaultSettings : Settings where
  maxPlayers := 4
  turnTimeSec := 0
  autoStart := false
  gameMode := .single
  houseRules := .official
  targetScore := 500
  penaltyCards := 2
  lobbyAccess := .invite

/-- `{ ...fallback, ...input }` at a numeric key -/
def overridden (input : Option Number) (fallback : Nat) : Number :=
  input.getD (.finite fallback)

def sanitizeSettings (input : SettingsInput) (fallback : Settings) (minSeats : Nat) : Settings where
  maxPlayers := clampInt (overridden input.maxPlayers fallback.maxPlayers) (max 2 minSeats) 8
    (max 4 minSeats)
  turnTimeSec := clampInt (overridden input.turnTimeSec fallback.turnTimeSec) 0 300
    fallback.turnTimeSec
  autoStart := input.autoStart.getD fallback.autoStart
  gameMode := match input.gameMode with
    | none => fallback.gameMode
    | some mode => if mode = "points" then .points else .single
  houseRules := match input.houseRules with
    | none => fallback.houseRules
    | some rules => if rules = "casual" then .casual else .official
  targetScore := clampInt (overridden input.targetScore fallback.targetScore) 100 10000
    (if fallback.targetScore = 0 then 500 else fallback.targetScore)
  penaltyCards := clampInt (overridden input.penaltyCards fallback.penaltyCards) 1 10
    (if fallback.penaltyCards = 0 then 2 else fallback.penaltyCards)
  lobbyAccess := match input.lobbyAccess with
    | none => fallback.lobbyAccess
    | some access => if access = "public" then .everyone else .invite

def topEffectiveColor (topCard : Option Card) (activeColor : Option Color) : Option Color :=
  match topCard with
  | none => activeColor
  | some top => if top.color = .wild then activeColor else some top.color

def hasMatchingColor (hand : List Card) (color : Option Color) : Bool :=
  match color with
  | none | some .wild => false
  | some color => hand.any (·.color = color)

def canPlay (card : Card) (topCard : Option Card) (activeColor : Option Color)
    (houseRules : HouseRules) (hand : List Card) : Bool :=
  match topCard with
  | none => false
  | some top =>
    if card.color = .wild then
      if card.value = .wild4 ∧ houseRules = .official then
        !hasMatchingColor hand (topEffectiveColor topCard activeColor)
      else true
    else topEffectiveColor topCard activeColor = some card.color || card.value = top.value

/-- What a stack of cards to draw was begun or last continued with -/
inductive DrawType
  | draw2
  | draw4

def canStackDraw (card : Card) (pendingDrawType : Option DrawType) (houseRules : HouseRules) :
    Bool :=
  houseRules = .casual && match pendingDrawType with
    | none => false
    | some .draw2 => card.value = .draw2 || card.value = .wild4
    | some .draw4 => card.value = .wild4

/-- The colour that a text names, where that is one to choose -/
def validColor? : String → Option Color
  | "red" => some .red
  | "yellow" => some .yellow
  | "green" => some .green
  | "blue" => some .blue
  | _ => none

end Bluetalk.Uno
