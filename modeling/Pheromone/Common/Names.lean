import Pheromone.Lib.Bytes

/-!
# Names, objects and addresses

The string types of `types.hpp`, the object names of `common.hpp` and the
addresses of `kvs_threads.hpp`.
-/

namespace Pheromone.Common

open Lib

abbrev Address := Bytes
abbrev Key := Bytes
abbrev Bucket := Bytes
abbrev Session := Bytes
abbrev Value := Bytes
/-- Names of applications, functions and triggers. -/
abbrev Name := Bytes

/-- `rand_r`: the value drawn from a seed and the seed it leaves. -/
abbrev RandR := UInt32 → Nat × UInt32

/-- `'|'` -/
def kDelimiterChar : UInt8 := 124

def kDelimiter : Bytes := [kDelimiterChar]

/-- Values up to this size travel inside the messages about them. -/
def msgDataPackingThreshold : Nat := 1024

def bucketNameDirectInvoc : Bucket := Bytes.lit "direct_invoc"

def kvsKeyPrefix : Bytes := Bytes.lit "KVS"

/-! ## Objects -/

def getKeySessionName (key : Key) (session : Session) : Bytes := key ++ session

def getLocalObjectName (bucket : Bucket) (key : Key) (session : Session) : Bytes :=
  bucket ++ kDelimiter ++ getKeySessionName key session

structure BucketKey where
  bucket : Bucket
  key : Key
  session : Session
  deriving DecidableEq, Repr

namespace BucketKey

/-- The constructor from a bucket and a joined key and session.  The session is
the last 16 bytes; a shorter string leaves the key and the session empty. -/
def ofSessionKey (bucket : Bucket) (sessionKey : Bytes) : BucketKey :=
  let keySize := sessionKey.length
  if 16 < keySize then
    { bucket, key := sessionKey.take (keySize - 16), session := sessionKey.drop (keySize - 16) }
  else
    { bucket, key := [], session := [] }

/-- The name of the object in shared memory. -/
def shmKeyName (bk : BucketKey) : Bytes :=
  getLocalObjectName bk.bucket bk.key bk.session

theorem ofSessionKey_append (bucket : Bucket) {key : Key} {session : Session}
    (hkey : key ≠ []) (hsession : session.length = 16) :
    ofSessionKey bucket (getKeySessionName key session) = { bucket, key, session } := by
  have hpos : 0 < key.length := List.length_pos_iff.mpr hkey
  have hlen : (key ++ session).length - 16 = key.length := by
    rw [List.length_append]
    omega
  unfold ofSessionKey getKeySessionName
  simp only [hlen]
  rw [if_pos (by rw [List.length_append]; omega), List.take_left, List.drop_left]

theorem mem_of_mem_ofSessionKey {bucket : Bucket} {sessionKey : Bytes} {c : UInt8}
    (h : c ∈ (ofSessionKey bucket sessionKey).key) : c ∈ sessionKey := by
  unfold ofSessionKey at h
  simp only at h
  split at h
  · exact List.mem_of_mem_take h
  · exact absurd h List.not_mem_nil

/-- The triples whose names can be taken apart again. -/
structure Separable (bk : BucketKey) : Prop where
  bucket : kDelimiterChar ∉ bk.bucket
  key : bk.key ≠ []
  session : bk.session.length = 16

end BucketKey

/-- `get_bucket_key_from_string`: the bucket ends at the first delimiter.  Without one,
`find` returns `npos`, so that the first `substr` is the whole string, and so is the second
one, from `npos + 1 = 0` on. -/
def getBucketKeyFromString (keyName : Bytes) : BucketKey :=
  match keyName.idxOf? kDelimiterChar with
  | some splitterIndex =>
      BucketKey.ofSessionKey (keyName.take splitterIndex) (keyName.drop (splitterIndex + 1))
  | none => BucketKey.ofSessionKey keyName keyName

theorem getBucketKeyFromString_shmKeyName {bk : BucketKey} (h : bk.Separable) :
    getBucketKeyFromString bk.shmKeyName = bk := by
  have hname : bk.shmKeyName =
      bk.bucket ++ kDelimiterChar :: getKeySessionName bk.key bk.session := by
    unfold BucketKey.shmKeyName getLocalObjectName kDelimiter
    rw [List.append_assoc, List.singleton_append]
  have hrest : (bk.bucket ++ kDelimiterChar :: getKeySessionName bk.key bk.session).drop
      (bk.bucket.length + 1) = getKeySessionName bk.key bk.session := by
    rw [← List.drop_drop, List.drop_left, List.drop_one, List.tail_cons]
  unfold getBucketKeyFromString
  simp only [hname, Bytes.idxOf?_append_delim _ h.bucket, List.take_left, hrest]
  exact BucketKey.ofSessionKey_append bk.bucket h.key h.session

theorem shmKeyName_inj {bk bk' : BucketKey} (h : bk.Separable) (h' : bk'.Separable)
    (hname : bk.shmKeyName = bk'.shmKeyName) : bk = bk' := by
  rw [← getBucketKeyFromString_shmKeyName h, hname, getBucketKeyFromString_shmKeyName h']

/-! ## Addresses -/

def funcExecPort : Nat := 4300
def dataAccessServerPort : Nat := 4400
def dataAccessClientPort : Nat := 4450
def forwardFuncPort : Nat := 4500
def kNotifyHandlerPort : Nat := 7350
def triggerUpdatePort : Nat := 7700

/-- `"tcp://" + ip + ":" + std::to_string(port)` -/
def tcpAddress (ip : Address) (port : Nat) : Address :=
  Bytes.lit "tcp://" ++ ip ++ Bytes.lit ":" ++ Bytes.toDecimal port

/-- The node part of an address: what follows `tcp://` up to the next `:`. -/
def ipOfAddress (address : Address) : Option Address := address.substrUntil 58 6

/-- A coordinator thread as a scheduler knows it. -/
structure HandlerThread where
  ip : Address
  tid : Nat
  deriving DecidableEq, Repr

namespace HandlerThread

def notifyHandlerConnectAddress (t : HandlerThread) : Address :=
  tcpAddress t.ip (t.tid + kNotifyHandlerPort)

def forwardFuncConnectAddress (t : HandlerThread) : Address :=
  tcpAddress t.ip (t.tid + forwardFuncPort)

end HandlerThread

end Pheromone.Common
