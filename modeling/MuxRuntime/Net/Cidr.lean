import MuxRuntime.Foundations.Masks
import MuxRuntime.Foundations.Str

/-!
# Networks in CIDR notation

A network is an address whose host bits are zero, together with the number of its network bits.
The standard library's text form of addresses is a parameter.
-/

namespace MuxRuntime
namespace Net

open Masks

/-! ## Addresses -/

/-- An address of either family, as its number. -/
inductive IpAddr where
  | v4 (raw : BitVec 32)
  | v6 (raw : BitVec 128)
deriving DecidableEq

namespace IpAddr

/-- The width of the addresses of a family. -/
def bits : IpAddr → Nat
  | v4 _ => 32
  | v6 _ => 128

def toNat : IpAddr → Nat
  | v4 raw => raw.toNat
  | v6 raw => raw.toNat

def SameFamily : IpAddr → IpAddr → Prop
  | v4 _, v4 _ => True
  | v6 _, v6 _ => True
  | _, _ => False

end IpAddr

/-- The shifted mask of a prefix length; a shift by the whole width is avoided. -/
def prefixMask (w prefixLen : Nat) : BitVec w :=
  if prefixLen = 0 then 0 else BitVec.allOnes w <<< (w - prefixLen)

/-- The mask of length zero is the shift by the whole width. -/
lemma prefixMask_eq (w prefixLen : Nat) : prefixMask w prefixLen = mask w (w - prefixLen) := by
  rw [prefixMask, mask]
  split_ifs with h
  · rw [h, Nat.sub_zero, BitVec.shiftLeft_eq_zero (le_refl w)]
    rfl
  · rfl

/-- The address with its host bits cleared. -/
def IpAddr.network (ip : IpAddr) (prefixLen : Nat) : IpAddr :=
  match ip with
  | .v4 raw => .v4 (raw &&& prefixMask 32 prefixLen)
  | .v6 raw => .v6 (raw &&& prefixMask 128 prefixLen)

/-- The address with its host bits set. -/
def IpAddr.broadcast (ip : IpAddr) (prefixLen : Nat) : IpAddr :=
  match ip with
  | .v4 raw => .v4 (raw ||| ~~~ prefixMask 32 prefixLen)
  | .v6 raw => .v6 (raw ||| ~~~ prefixMask 128 prefixLen)

lemma IpAddr.bits_network (ip : IpAddr) (prefixLen : Nat) :
    (ip.network prefixLen).bits = ip.bits := by
  cases ip <;> rfl

lemma IpAddr.network_network (ip : IpAddr) (prefixLen : Nat) :
    (ip.network prefixLen).network prefixLen = ip.network prefixLen := by
  cases ip with
  | v4 raw | v6 raw => rw [network, network, BitVec.and_assoc, BitVec.and_self]

/-! ## Networks -/

/-- A network: its prefix length fits the family, and its host bits are zero. -/
structure Cidr where
  network : IpAddr
  prefixLen : Nat
  fits : prefixLen ≤ network.bits
  masked : network.network prefixLen = network
deriving DecidableEq

/-- The network of an address. -/
def IpAddr.cidr (ip : IpAddr) (prefixLen : Nat) (h : prefixLen ≤ ip.bits) : Cidr where
  network := ip.network prefixLen
  prefixLen := prefixLen
  fits := by rwa [IpAddr.bits_network]
  masked := ip.network_network prefixLen

/-- `mux_net_cidr_contains`. -/
def Cidr.contains (cidr : Cidr) (candidate : IpAddr) : Bool :=
  match cidr.network, candidate with
  | .v4 n, .v4 c => n &&& prefixMask 32 cidr.prefixLen == c &&& prefixMask 32 cidr.prefixLen
  | .v6 n, .v6 c => n &&& prefixMask 128 cidr.prefixLen == c &&& prefixMask 128 cidr.prefixLen
  | _, _ => false

/-- The last address of a network. -/
def Cidr.broadcast (cidr : Cidr) : IpAddr :=
  cidr.network.broadcast cidr.prefixLen

/-- A network consists of the addresses of its family between its own and its broadcast address. -/
theorem Cidr.contains_iff (cidr : Cidr) (candidate : IpAddr) : cidr.contains candidate = true ↔
      cidr.network.SameFamily candidate ∧ cidr.network.toNat ≤ candidate.toNat ∧
        candidate.toNat ≤ cidr.broadcast.toNat := by
  rcases cidr with ⟨network, prefixLen, fits, masked⟩
  have hwidth : ∀ w, w - prefixLen ≤ w := fun w => Nat.sub_le w prefixLen
  cases network with
  | v4 n =>
    have hn := IpAddr.v4.inj masked
    cases candidate with
    | v4 c =>
      rw [prefixMask_eq] at hn
      simpa [contains, broadcast, IpAddr.broadcast, IpAddr.SameFamily, IpAddr.toNat,
        prefixMask_eq, BitVec.le_def] using and_mask_eq_iff_between (hwidth 32) hn c
    | v6 c => simp [contains, IpAddr.SameFamily]
  | v6 n => ?_
  have hn := IpAddr.v6.inj masked
  cases candidate with
  | v4 c => simp [contains, IpAddr.SameFamily]
  | v6 c =>
    rw [prefixMask_eq] at hn
    simpa [contains, broadcast, IpAddr.broadcast, IpAddr.SameFamily, IpAddr.toNat,
      prefixMask_eq, BitVec.le_def] using and_mask_eq_iff_between (hwidth 128) hn c

lemma Cidr.contains_network (cidr : Cidr) : cidr.contains cidr.network = true := by
  unfold contains
  cases cidr.network <;> exact beq_self_eq_true _

lemma Cidr.contains_iff_network (cidr : Cidr) (ip : IpAddr) : cidr.contains ip = true ↔
    cidr.network.network cidr.prefixLen = ip.network cidr.prefixLen := by
  unfold contains IpAddr.network
  cases cidr.network <;> cases ip <;> simp

/-- Addresses in one network are in one network of every shorter prefix. -/
lemma IpAddr.network_of_le {p q : Nat} (h : p ≤ q) {x y : IpAddr}
    (hxy : x.network q = y.network q) : x.network p = y.network p := by
  cases x <;> cases y <;> simp_all only [network, prefixMask_eq, IpAddr.v4.injEq, IpAddr.v6.injEq,
    reduceCtorEq]
  all_goals exact and_mask_eq_of_le (Nat.sub_le_sub_left h _) hxy

/-- Of two networks one lies in the other, or they have no address in common. -/
theorem networks_nested (a b : Cidr) : (∀ ip, a.contains ip = true → b.contains ip = true) ∨
      (∀ ip, b.contains ip = true → a.contains ip = true) ∨
      ∀ ip, a.contains ip = true → b.contains ip = false := by
  have hinside : ∀ {a b : Cidr} {x y : IpAddr}, a.prefixLen ≤ b.prefixLen → a.contains x = true →
      b.contains x = true → b.contains y = true → a.contains y = true := by
    intro a b x y hle hax hbx hby
    rw [Cidr.contains_iff_network] at hax hbx hby ⊢
    exact hax.trans (IpAddr.network_of_le hle (hbx.symm.trans hby))
  by_cases hcommon : ∃ x, a.contains x = true ∧ b.contains x = true
  · obtain ⟨x, hax, hbx⟩ := hcommon
    rcases le_total a.prefixLen b.prefixLen with hle | hle
    · exact .inr (.inl fun _ => hinside hle hax hbx)
    · exact .inl fun _ => hinside hle hbx hax
  · exact .inr (.inr fun ip ha => Bool.eq_false_iff.mpr fun hb => hcommon ⟨ip, ha, hb⟩)

/-! ## Texts -/

/-- The standard library's text form of addresses. -/
structure IpText where
  parse : List Char → Option IpAddr
  display : IpAddr → List Char

/-- What is promised about the text of an address: it is read back, and has no slash. -/
structure IpText.ReadsBack (A : IpText) (ip : IpAddr) : Prop where
  parse_display : A.parse (A.display ip) = some ip
  slash : '/' ∉ A.display ip

variable (A : IpText)

def parseCidr (value : List Char) : Except String Cidr :=
  match Str.splitOnce '/' value with
  | none => .error "CIDR must contain '/'"
  | some (address, prefixText) =>
    match A.parse address with
    | none => .error "invalid IP address"
    | some ip =>
      match Str.fromStrRadix 255 10 prefixText with
      | none => .error "CIDR prefix must be an integer"
      | some prefixLen =>
        if h : prefixLen ≤ ip.bits then .ok (ip.cidr prefixLen h)
        else .error ("CIDR prefix must be between 0 and " ++ toString ip.bits)

/-- An address, a slash and a prefix length. -/
def cidrText (ip : IpAddr) (prefixLen : Nat) : List Char :=
  A.display ip ++ '/' :: Nat.toDigits 10 prefixLen

/-- `mux_net_cidr_to_string`. -/
def Cidr.toText (cidr : Cidr) : List Char :=
  cidrText A cidr.network cidr.prefixLen

variable {A}

/-- Every prefix length of the family is accepted. -/
lemma parseCidr_cidrText {ip : IpAddr} (hip : A.ReadsBack ip) {prefixLen : Nat}
    (h : prefixLen ≤ ip.bits) :
    parseCidr A (cidrText A ip prefixLen) = .ok (ip.cidr prefixLen h) := by
  have hbyte : prefixLen ≤ 255 := by
    cases ip with
    | v4 => exact h.trans (by decide : 32 ≤ 255)
    | v6 => exact h.trans (by decide : 128 ≤ 255)
  rw [parseCidr, cidrText, Str.splitOnce_append hip.slash]
  simp only [hip.parse_display, Str.fromStrRadix_toDigits hbyte, dif_pos h]

/-- The text of a network is read back as that network. -/
theorem parseCidr_toText {cidr : Cidr} (hnetwork : A.ReadsBack cidr.network) :
    parseCidr A (cidr.toText A) = .ok cidr := by
  rw [Cidr.toText, parseCidr_cidrText hnetwork cidr.fits]
  rcases cidr with ⟨network, prefixLen, fits, masked⟩
  simp only [IpAddr.cidr, masked]

/-- Every address and prefix length of its family has a network; and a network that was parsed from
any text has the addresses from its own, the least one, to its broadcast address as members, and
is read back from its text. -/
theorem cidr_text_denotes_interval (A : IpText) :
    (∀ (ip : IpAddr) (prefixLen : Nat), A.ReadsBack ip → prefixLen ≤ ip.bits →
      ∃ cidr, parseCidr A (cidrText A ip prefixLen) = .ok cidr ∧ cidr.prefixLen = prefixLen ∧
        cidr.contains ip = true) ∧
    ∀ text cidr, parseCidr A text = .ok cidr → (∀ candidate, cidr.contains candidate = true ↔
        cidr.network.SameFamily candidate ∧ cidr.network.toNat ≤ candidate.toNat ∧
          candidate.toNat ≤ cidr.broadcast.toNat) ∧
      cidr.contains cidr.network = true ∧
      (∀ member, cidr.contains member = true → cidr.network.toNat ≤ member.toNat) ∧
      (A.ReadsBack cidr.network → parseCidr A (cidr.toText A) = .ok cidr) := by
  constructor
  · intro ip prefixLen hip h
    refine ⟨_, parseCidr_cidrText hip h, rfl, ?_⟩
    cases ip with
    | v4 raw | v6 raw => simp [Cidr.contains, IpAddr.cidr, IpAddr.network, BitVec.and_assoc]
  · intro text cidr _
    refine ⟨cidr.contains_iff, cidr.contains_network, ?_, parseCidr_toText⟩
    intro member hmember
    exact ((cidr.contains_iff member).mp hmember).2.1

/-- The texts of an address and of its network. -/
def sampleIpText : IpText where
  parse text :=
    if text = "10.1.2.3".toList then some (.v4 0x0a010203)
    else if text = "10.0.0.0".toList then some (.v4 0x0a000000)
    else none
  display ip := if ip = .v4 0x0a000000 then "10.0.0.0".toList else "10.1.2.3".toList

/-- The network of an address with eight network bits. -/
theorem ten_slash_eight : ∃ cidr, parseCidr sampleIpText "10.1.2.3/8".toList = .ok cidr ∧
      parseCidr sampleIpText (cidr.toText sampleIpText) = .ok cidr ∧
      cidr.toText sampleIpText = "10.0.0.0/8".toList := by
  have hparse : parseCidr sampleIpText "10.1.2.3/8".toList =
      .ok (IpAddr.cidr (.v4 0x0a010203) 8 (by decide)) := rfl
  exact ⟨_, hparse, ((cidr_text_denotes_interval sampleIpText).2 _ _ hparse).2.2.2
    ⟨rfl, by decide⟩, rfl⟩

end Net
end MuxRuntime
