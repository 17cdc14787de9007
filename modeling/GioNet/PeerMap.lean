import GioNet.Server
import GioNet.Library.HashTable

/-!
# Addresses as keys of hash tables

`Server::peers` and the exceptions of `Broadcast` are hash tables with network
addresses as keys. All loopback addresses of a port are equal, but their hash is
that of their text. How the standard library hashes texts and ports, and which
bucket a hash value belongs to, is left open.
-/

namespace GioNet

/-- The hash functions of the standard library. -/
structure StdHash where
  string : StdString → UInt64
  unsignedShort : UInt16 → UInt64

namespace NetAddress

def toString (a : NetAddress) : StdString :=
  a.ip ++ (literal ":" ++ (Nat.toDigits 10 a.port.toNat).map fun c ↦ c.toNat.toUInt8)

/-- `std::hash<NetAddress>`. -/
def hash (h : StdHash) (a : NetAddress) : UInt64 :=
  h.string a.toString ^^^ h.unsignedShort a.port

/-- Addresses as keys of an unordered container. -/
def keys (h : StdHash) : HashTable NetAddress UInt64 := ⟨eq, hash h⟩

theorem eq_iff {a b : NetAddress} :
    a.eq b = true ↔
      a.port = b.port ∧ (a.ip = b.ip ∨ (a.isLoopback = true ∧ b.isLoopback = true)) := by
  unfold eq
  by_cases hport : b.port = a.port
  · by_cases hip : b.ip = a.ip
    · simp [hport, hip]
    · simp [hport, hip, Ne.symm hip]
  · simp [hport, Ne.symm hport]

theorem isLoopback_congr {a b : NetAddress} (h : a.ip = b.ip) : a.isLoopback = b.isLoopback := by
  rw [isLoopback, isLoopback, h]

theorem eq_equivalence : Equivalence fun a b : NetAddress ↦ a.eq b = true := by
  refine ⟨eq_self, ?_, ?_⟩
  · intro a b h
    obtain ⟨hport, hip⟩ := eq_iff.mp h
    exact eq_iff.mpr ⟨hport.symm, hip.imp Eq.symm And.symm⟩
  · intro a b c hab hbc
    obtain ⟨hport, hip⟩ := eq_iff.mp hab
    obtain ⟨hport', hip'⟩ := eq_iff.mp hbc
    refine eq_iff.mpr ⟨hport.trans hport', ?_⟩
    rcases hip with hip | ⟨ha, hb⟩
    · rw [hip, isLoopback_congr hip]
      exact hip'
    · rcases hip' with hip' | ⟨-, hc⟩
      · exact Or.inr ⟨ha, isLoopback_congr hip' ▸ hb⟩
      · exact Or.inr ⟨ha, hc⟩

theorem toString_eq_iff {a b : NetAddress} (hport : a.port = b.port) :
    a.toString = b.toString ↔ a.ip = b.ip := by
  rw [toString, toString, hport, List.append_left_inj]

end NetAddress

/-- The hash of strings gives different values to the different texts of the addresses. -/
def StdHash.Separates (h : StdHash) (as : List NetAddress) : Prop :=
  ∀ a ∈ as, ∀ b ∈ as, h.string a.toString = h.string b.toString → a.toString = b.toString

namespace NetAddress

/-- Equal addresses have the same hash exactly if they have the same text. -/
theorem hash_eq_iff {h : StdHash} {a b : NetAddress} (hsep : h.Separates [a, b])
    (heq : a.eq b = true) : a.hash h = b.hash h ↔ a.ip = b.ip := by
  obtain ⟨hport, -⟩ := eq_iff.mp heq
  rw [← toString_eq_iff hport, hash, hash, hport, UInt64.xor_left_inj]
  exact ⟨hsep a (by simp) b (by simp), congrArg h.string⟩

theorem lawful_iff {h : StdHash} {as : List NetAddress} (hsep : h.Separates as) :
    (keys h).Lawful as ↔ ∀ a ∈ as, ∀ b ∈ as, a.eq b = true → a = b := by
  refine forall₂_congr fun a ha ↦ forall₂_congr fun b hb ↦ forall_congr' fun heq ↦ ?_
  have hpair : h.Separates [a, b] := by
    intro c hc d hd
    have hmem : ∀ e ∈ [a, b], e ∈ as := by
      simp [ha, hb]
    exact hsep c (hmem c hc) d (hmem d hd)
  have hport := (eq_iff.mp heq).1
  change a.hash h = b.hash h ↔ a = b
  rw [hash_eq_iff hpair heq]
  constructor
  · intro hip
    cases a
    cases b
    cases hip
    cases hport
    rfl
  · exact congrArg NetAddress.ip

end NetAddress

/-- The hash functions of the library that the project is built with: FNV-1a on
the bytes. -/
def fnv1a (bytes : List UInt8) : UInt64 :=
  bytes.foldl (fun hash byte ↦ (hash ^^^ byte.toUInt64) * 1099511628211) 14695981039346656037

def StdHash.fnv1a : StdHash where
  string := GioNet.fnv1a
  unsignedShort port := GioNet.fnv1a (LittleEndian.encode 2 port.toNat)

/-! ## The server's containers -/

namespace PeerMap

/-- The bucket of each hash value. -/
abbrev Layout := UInt64 → ℕ

variable (h : StdHash) (layout : Layout)

def hasPeer (peers : List NetAddress) (address : NetAddress) : Bool :=
  (NetAddress.keys h).contains layout peers address

def tryGetPeer (peers : List NetAddress) (address : NetAddress) : Option NetAddress :=
  (NetAddress.keys h).find layout peers address

/-- The addresses of the peers after calls of `AddPeer`, each with the layout that
the container has then. -/
def addPeers (calls : List (NetAddress × Layout)) : List NetAddress :=
  (NetAddress.keys h).addAll calls

/-- `except.contains(address)`. -/
def exceptContains (except : List NetAddress) (address : NetAddress) : Bool :=
  (NetAddress.keys h).contains layout except address

/-- No two entries are equal, and a lookup finds the entry that is equal to the
address, if there is one. -/
structure Works (entries : List NetAddress) (b : NetAddress) : Prop where
  unique : entries.Pairwise fun a a' ↦ a.eq a' = false
  found : (∃ a ∈ entries, a.eq b = true) →
    (∃ a ∈ entries, a.eq b = true ∧ tryGetPeer h layout entries b = some a) ∧
      hasPeer h layout entries b = true ∧ exceptContains h layout entries b = true

theorem works_iff {entries : List NetAddress} {b : NetAddress} :
    Works h layout entries b ↔ (NetAddress.keys h).Unique entries ∧
      (NetAddress.keys h).Sees layout entries b := by
  constructor
  · rintro ⟨hunique, hfound⟩
    refine ⟨hunique, fun hstored ↦ ?_⟩
    obtain ⟨⟨a, -, heq, hget⟩, -, -⟩ := hfound hstored
    exact ⟨a, hget, heq⟩
  · rintro ⟨hunique, hsees⟩
    refine ⟨hunique, fun hstored ↦ ?_⟩
    obtain ⟨a, hget, heq⟩ := hsees hstored
    have hcontains : (NetAddress.keys h).contains layout entries b = true := by
      rw [HashTable.contains, hget]
      rfl
    exact ⟨⟨a, (HashTable.find_eq_some hget).1, heq, hget⟩, hcontains, hcontains⟩

/-- Equality of addresses is an equivalence. Equal addresses have the same hash
exactly if they have the same text. The tables work under all bucket layouts
exactly if no two different addresses among those added and the one looked up
are equal. -/
theorem netAddress_as_key (h : StdHash) :
    (Equivalence fun a b : NetAddress ↦ a.eq b = true) ∧
      (∀ a b : NetAddress, h.Separates [a, b] → a.eq b = true →
        (a.hash h = b.hash h ↔ a.ip = b.ip)) ∧
        ∀ (as : List NetAddress) (b : NetAddress), h.Separates (as ++ [b]) →
          ((∀ (calls : List (NetAddress × Layout)) (layout : Layout), calls.map Prod.fst = as →
            Works h layout (addPeers h calls) b) ↔
              ∀ a ∈ as ++ [b], ∀ a' ∈ as ++ [b], a.eq a' = true → a = a') := by
  refine ⟨NetAddress.eq_equivalence, fun a b ↦ NetAddress.hash_eq_iff, fun as b hsep ↦ ?_⟩
  have hspread : Function.Injective UInt64.toNat := fun x y ↦ UInt64.toNat_inj.mp
  rw [← NetAddress.lawful_iff hsep,
    ← HashTable.works_iff_lawful hspread NetAddress.eq_equivalence as b]
  refine forall₂_congr fun calls layout ↦ forall_congr' fun _ ↦ ?_
  exact works_iff h layout

/-- The bucket of a hash value in a table with eight buckets. -/
def eightBuckets : Layout := fun hash ↦ (hash &&& 7).toNat

theorem netAddress_as_key_distinct :
    ∀ (calls : List (NetAddress × Layout)) (layout : Layout),
      calls.map Prod.fst = [⟨literal "127.0.0.1", 1⟩, ⟨literal "10.0.0.1", 1⟩] →
        Works .fnv1a layout (addPeers .fnv1a calls) ⟨literal "10.0.0.1", 1⟩ := by
  have hsep : StdHash.fnv1a.Separates ([⟨literal "127.0.0.1", 1⟩, ⟨literal "10.0.0.1", 1⟩] ++
      [⟨literal "10.0.0.1", 1⟩]) := by
    unfold StdHash.Separates
    decide
  apply ((netAddress_as_key .fnv1a).2.2 _ _ hsep).mpr
  decide

/-- Two loopback addresses that are equal and have different hashes. With eight
buckets both become peers, and the second is not found under the first. -/
theorem loopback_unlawful :
    ¬ (∀ (h : StdHash) (a b : NetAddress), h.Separates [a, b] → a.eq b = true →
        a.hash h = b.hash h) ∧
      addPeers .fnv1a [(⟨literal "127.0.0.1", 27015⟩, eightBuckets),
          (⟨literal "localhost", 27015⟩, eightBuckets)] =
        [⟨literal "127.0.0.1", 27015⟩, ⟨literal "localhost", 27015⟩] ∧
        tryGetPeer .fnv1a eightBuckets [⟨literal "127.0.0.1", 27015⟩]
          ⟨literal "localhost", 27015⟩ = none := by
  refine ⟨?_, by decide, by decide⟩
  intro hall
  have hsep : StdHash.fnv1a.Separates
      [⟨literal "127.0.0.1", 27015⟩, ⟨literal "localhost", 27015⟩] := by
    unfold StdHash.Separates
    decide
  have hhash := hall .fnv1a _ _ hsep (by decide)
  revert hhash
  decide

/-! ## The server's model -/

/-- Where no two different addresses are equal, the tables are the lists of peers
that the server's model has. -/
theorem tryGetPeer_eq (h : StdHash) (layout : Layout) {σ : Server} {address : NetAddress}
    (hdistinct : ∀ a ∈ σ.peers ++ [address], ∀ b ∈ σ.peers ++ [address],
      a.eq b = true → a = b) :
    tryGetPeer h layout σ.peers address = σ.tryGetPeer address ∧
      (σ.addPeer address = none ↔ hasPeer h layout σ.peers address = true) := by
  have hlawful : (NetAddress.keys h).Lawful (σ.peers ++ [address]) :=
    fun a ha b hb heq ↦ congrArg (NetAddress.hash h) (hdistinct a ha b hb heq)
  have hmem : address ∈ σ.peers ++ [address] := by simp
  have hfind := hlawful.find_eq (List.subset_append_left σ.peers [address]) hmem layout
  refine ⟨hfind, ?_⟩
  rw [hasPeer, HashTable.contains, hfind, Server.addPeer]
  simp [NetAddress.keys]

end PeerMap

end GioNet
