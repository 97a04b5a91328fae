/-
Shard identifiers (`crates/protocol/src/shard.rs`): core, namespace:owner[/instance], or node:<key-hash>.

The text is split at its first colon and, behind the colon, at its first slash. Only the namespace and the owner are used
to resolve keys and authority.
-/
import Mathlib.Tactic
import Avalon.Core.Bytes
import Avalon.Server.OverlayRouting

namespace Avalon.Shard

open OverlayRouting (isWhitespace)

/-- the reserved label of a network's pinned core authority -/
def coreShardId : String := "core"

def maxInstanceLen : ℕ := 64

def selfCertifyingNamespace : String := "node"

def keyHashHexLen : ℕ := 64

inductive ParsedShardId where
  | core
  | owned (namespace_ owner : String) (instance_ : Option String)
  | selfCertifying (keyHashHex : String)
deriving DecidableEq, Repr

inductive ShardIdError where
  | empty
  | unknownNamespace (ns : String)
  | emptyOwner
  | invalidOwner (owner : String)
  | invalidInstance (instance_ : String)
  | invalidKeyHash (hash : String)
deriving DecidableEq, Repr

/-- the texts before and behind the first c -/
def splitOnce (c : Char) : List Char → Option (List Char × List Char)
  | [] => none
  | d :: ds => if d = c then some ([], ds) else (splitOnce c ds).map fun (before, after) => (d :: before, after)

def validInstance (s : String) : Bool :=
  match s.toList with
  | [] => false
  | first :: chars =>
    decide ((utf8 s).length ≤ maxInstanceLen) && (first.isLower || first.isDigit) &&
      chars.all fun c => c.isLower || c.isDigit || c == '-'

/-- lowercase hex digits only -/
def validKeyHashHex (s : String) : Bool :=
  decide ((utf8 s).length = keyHashHexLen) &&
    (utf8 s).all fun b => (0x30 ≤ b && b ≤ 0x39) || (0x61 ≤ b && b ≤ 0x66)

def parseShardId (id : String) : Except ShardIdError ParsedShardId := do
  if id = "" then throw .empty
  if id = coreShardId then return .core
  let some (ns, rest) := splitOnce ':' id.toList | throw (.unknownNamespace id)
  if String.ofList ns = selfCertifyingNamespace then
    if validKeyHashHex (String.ofList rest) then return .selfCertifying (String.ofList rest)
    else throw (.invalidKeyHash (String.ofList rest))
  if String.ofList ns ∉ ["game", "app", "service"] then throw (.unknownNamespace (String.ofList ns))
  let (owner, inst) := match splitOnce '/' rest with
    | some (owner, inst) => (owner, some (String.ofList inst))
    | none => (rest, none)
  if owner = [] then throw .emptyOwner
  if owner.any fun c => isWhitespace c || c == ':' || c == '/' then throw (.invalidOwner (String.ofList owner))
  if let some inst := inst then
    if !validInstance inst then throw (.invalidInstance inst)
  return .owned (String.ofList ns) (String.ofList owner) inst

/-- the namespace and owner that keys and authority are resolved from -/
def shardAuthority (id : String) : Option (String × String) :=
  match parseShardId id with
  | .ok (.owned ns owner _) => some (ns, owner)
  | _ => none

/-- instances of one owner are one family -/
def shardFamilyOwner (id : String) : Option String := (shardAuthority id).map fun (ns, owner) => ns ++ ":" ++ owner

/-- an owned id without instance -/
def isFamilyOwnerId (owner : String) : Bool :=
  match parseShardId owner with
  | .ok (.owned _ _ none) => true
  | _ => false

example : parseShardId "app:wow/eu-2" = .ok (.owned "app" "wow" (some "eu-2")) := by decide +kernel

end Avalon.Shard
