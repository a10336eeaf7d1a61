import ArielOS.Coapcore.ScopeDecision

namespace ArielOS.Coapcore.Peers

inductive SinglePermission
  | get
  | post
  | put
  | delete
  | fetch
  | patch
  | iPatch
  deriving DecidableEq

namespace SinglePermission

def code : SinglePermission → Nat
  | get => 1
  | post => 2
  | put => 3
  | delete => 4
  | fetch => 5
  | patch => 6
  | iPatch => 7

/-- The `Tperm` unsigned integer representation of the REST-specific AIF model described in RFC9237. -/
def mask (permission : SinglePermission) : BitVec 32 := 1#32 <<< (permission.code - 1)

end SinglePermission

inductive Permission
  | set (permissions : List SinglePermission)
  | single (permission : SinglePermission)

def Permission.mask : Permission → BitVec 32
  | set permissions => permissions.foldl (fun old value => old ||| value.mask) 0
  | single permission => permission.mask

inductive KnownScope
  | allowAll

/-- A map is given in the order in which it is iterated over. -/
inductive Scope
  | knownScope (scope : KnownScope)
  | aif (map : List (String × Permission))

inductive KnownSource
  | unauthenticated

structure Peer where
  kccs : Option String
  from_ : Option KnownSource
  scope : Scope

/-- The expression for a scope in `peers.rs`, of which one parses the bytes. -/
inductive ScopeSource
  | allowAll
  | aifValue (bytes : Bytes)

structure PeersRs where
  kccs : List (Bytes × ScopeSource)
  unauthenticatedScope : Option ScopeSource

/-- What the build script uses of minicbor and of cbor_edn. -/
structure BuildCrates where
  encode : List (Bytes × BitVec 32) → Bytes
  kccsToCbor : String → Option Bytes

/-- The ways in which the build ends without `peers.rs`. -/
inductive BuildPanic
  | kccsNotCbor
  | secondUnauthenticated
  | neitherKccsNorFrom

/-- The bytes of a `String`. -/
def utf8 (text : String) : Bytes := text.toList.flatMap String.utf8EncodeChar

/-- The entries that are encoded for a map. -/
def data (aif : List (String × Permission)) : List (Bytes × BitVec 32) :=
  aif.map fun (toid, tperm) => (utf8 toid, tperm.mask)

variable (crates : BuildCrates)

def scopeSource : Scope → ScopeSource
  | .knownScope .allowAll => .allowAll
  | .aif aif => .aifValue (crates.encode (data aif))

def addPeer (rs : PeersRs) (peer : Peer) : Except BuildPanic PeersRs :=
  let scope := scopeSource crates peer.scope
  match peer.kccs, peer.from_ with
  | some kccs, none =>
    match crates.kccsToCbor kccs with
    | some kccs => .ok { rs with kccs := rs.kccs ++ [(kccs, scope)] }
    | none => .error .kccsNotCbor
  | none, some .unauthenticated =>
    match rs.unauthenticatedScope with
    | some _ => .error .secondUnauthenticated
    | none => .ok { rs with unauthenticatedScope := some scope }
  | _, _ => .error .neitherKccsNorFrom

/-- What the build makes of the deserialized peers. -/
def main (peers : List Peer) : Except BuildPanic PeersRs :=
  peers.foldlM (addPeer crates) { kccs := [], unauthenticatedScope := none }

/-- Evaluates the expression on the device. -/
def ScopeSource.load (D : Minicbor) : ScopeSource → Except Panic Coapcore.Scope.UnionScope
  | allowAll => .ok .allowAll
  | aifValue bytes =>
    match Scope.AifValue.parse D bytes with
    | some scope => .ok (.aifValue scope)
    | none => .error .expectFailed

def PeersRs.scopes (rs : PeersRs) : List ScopeSource :=
  rs.kccs.map Prod.snd ++ rs.unauthenticatedScope.toList

end ArielOS.Coapcore.Peers
