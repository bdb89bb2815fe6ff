import TalkMachine.Proofs.Heap.Holds

/-!
# A heap that represents an object map

`Heap.Represents` is the invariant between the arena and the objects that its users see: each object
lies at the address that names it, and no two objects share a byte. A change to one object only has
to say which bytes it writes (`Heap.Represents.put`), and allocation writes behind all objects
(`Heap.Represents.allocate`).
-/

namespace TalkMachine

namespace Heap

variable {h h' : Heap} {address : ℕ} {o o' : Object}

/-- Writing an aligned word writes its eight bytes. -/
lemma byteAt_writeWord_aligned (haligned : address % 8 = 0) (haddress : address < h.usedBytes)
    (word : UInt64) (b : ℕ) : (h.writeWord address word).byteAt b =
      if address ≤ b then ((Word.bytes word)[b - address]?).getD (h.byteAt b) else h.byteAt b := by
  rw [byteAt_writeWord haddress]
  rcases Nat.lt_or_ge b address with hb | hb
  · rw [if_neg (by omega), if_neg (by omega)]
  · rcases Nat.lt_or_ge (b - address) 8 with hk | hk
    · have hmod : b % 8 = b - address := by omega
      rw [if_pos (by omega), if_pos hb, Word.getElem?_bytes word hk, hmod, Option.getD_some]
    · rw [if_neg (by omega), if_pos hb, List.getElem?_eq_none (by simpa using hk), Option.getD_none]

/-- When just the bytes from `start` of a body on are written, the object is overwritten there. -/
lemma Holds.overwrite (hold : h.Holds address o) {start : ℕ} {bytes : List UInt8}
    (hfits : start + bytes.length ≤ o.body.length) (hused : h'.usedBytes = h.usedBytes)
    (hwrite : ∀ b, h'.byteAt b =
      if address + 8 + start ≤ b then (bytes[b - (address + 8 + start)]?).getD (h.byteAt b)
      else h.byteAt b) : h'.Holds address (o.overwrite start bytes) := by
  have hlength := Object.length_overwrite hfits
  have hslots : (o.overwrite start bytes).slotCount = o.slotCount := by
    rw [Object.slotCount, Object.slotCount, hlength]
  have hheader : (o.overwrite start bytes).header = o.header := by
    rw [Object.header, Object.header, hslots]
    rfl
  have haligned := hold.aligned
  have hbefore : ∀ b, b < address + 8 → h'.byteAt b = h.byteAt b := by
    intro b hb
    rw [hwrite, if_neg (by omega)]
  refine ⟨hold.wellFormed.overwrite hfits, haligned, hslots ▸ hold.front, ?_, ?_, fun hge => ?_,
    fun {k byte} hk => ?_⟩
  · rw [hlength, hused]
    exact hold.fits
  · rw [hheader, ← hold.header]
    exact wordAt_congr haligned fun k hk => hbefore _ (by omega)
  · rw [hslots] at hge ⊢
    have hfront := hold.front
    rw [← hold.extended hge]
    exact wordAt_congr (by omega) fun k hk => hbefore _ (by omega)
  · rw [Object.getElem?_overwrite hfits] at hk
    rw [hwrite]
    split at hk
    · rename_i hrange
      have hsub : address + 8 + k - (address + 8 + start) = k - start := by omega
      rw [if_pos (by omega), hsub, hk, Option.getD_some]
    · rename_i hrange
      rcases Nat.lt_or_ge k start with hlt | hge
      · rw [if_neg (by omega), hold.body hk]
      · rw [if_pos (by omega), List.getElem?_eq_none (by omega), Option.getD_none, hold.body hk]

/-- When just the header is written, with other flags, the object has those flags. -/
lemma Holds.setFlags (hold : h.Holds address o) (flags : HeaderFlags) :
    (h.writeWord address (o.header.setFlags flags).raw).Holds address
      { o with flags := flags } := by
  have haligned := hold.aligned
  have hfits := hold.fits
  have hfront := hold.front
  have hlt : address < h.usedBytes := by omega
  have hwf := hold.wellFormed
  have hother : ∀ b, b / 8 ≠ address / 8 →
      (h.writeWord address (o.header.setFlags flags).raw).byteAt b = h.byteAt b := by
    intro b hb
    rw [byteAt_writeWord hlt, if_neg hb]
  refine ⟨⟨hwf.length_mod, hwf.unused_lt, hwf.unused_le, hwf.classIndex_lt, hwf.hash_lt⟩, haligned,
    hfront, ?_, ?_, fun hge => ?_, fun {k byte} hk => ?_⟩
  · rw [usedBytes_writeWord]
    exact hfits
  · apply Word.ext_byte
    intro k hk
    rw [← byteAt_add _ haligned hk, byteAt_writeWord hlt, if_pos (by omega),
      show (address + k) % 8 = k by omega, Object.header, Object.header, Header.setFlags_encode]
    rfl
  · have hslots : ({ o with flags := flags } : Object).slotCount = o.slotCount := rfl
    rw [hslots] at hge ⊢
    rw [← hold.extended hge]
    refine wordAt_congr (by omega) fun k hk => hother _ ?_
    rcases o.headerWords_cases with ⟨hwords, hlt⟩ | ⟨hwords, -⟩ <;> omega
  · rw [hother _ (by omega)]
    exact hold.body hk

/-! ### The invariant -/

/-- Whether a heap holds just the objects of an object map, each where its name says, and no two
share a byte. -/
structure Represents (h : Heap) (s : ObjectMap) : Prop where
  limit_eq : h.limit = s.limit
  nil_eq : h.nil = s.nil
  used_eq : h.usedBytes = s.used
  le_used : 8 ≤ s.used
  used_le : s.used ≤ s.limit
  limit_lt : s.limit < 2 ^ 64
  holds : ∀ {name : Value} {o : Object}, s.objects name = some o → h.Holds name.raw.toNat o
  disjoint : ∀ {name name' : Value} {o o' : Object}, s.objects name = some o →
    s.objects name' = some o' → name ≠ name' → ∀ b, o.Covers name.raw.toNat b →
      ¬o'.Covers name'.raw.toNat b

namespace Represents

variable {s : ObjectMap} {name : Value}

/-- The bytes in use can be counted in a word. -/
lemma usedBytes_lt (rep : h.Represents s) : h.usedBytes < 2 ^ 64 := by
  have hle := rep.used_le
  have hlt := rep.limit_lt
  rw [rep.used_eq]
  omega

/-- The heap without objects represents the object map without objects. -/
lemma new {limit : ℕ} (hlimit : limit < 2 ^ 64) :
    (Heap.new limit).Represents (ObjectMap.new limit) := by
  refine ⟨rfl, rfl, rfl, le_rfl, le_max_right _ _, max_lt hlimit (by decide), ?_, ?_⟩
  · intro name o ho
    cases ho
  · intro name name' o o' ho
    cases ho

/-- A change to one object that keeps its length and writes only bytes that the object takes up is a
change to that object in the map. -/
theorem put (rep : h.Represents s) (ho : s.objects name = some o)
    (hlength : o'.body.length = o.body.length) (hlimit : h'.limit = h.limit) (hnil : h'.nil = h.nil)
    (hused : h'.usedBytes = h.usedBytes)
    (hframe : ∀ b, ¬o.Covers name.raw.toNat b → h'.byteAt b = h.byteAt b)
    (hold : h'.Holds name.raw.toNat o') : h'.Represents (s.put name o') := by
  have hcovers : ∀ b, o'.Covers name.raw.toNat b ↔ o.Covers name.raw.toNat b := by
    intro b
    rw [Object.Covers, Object.Covers, Object.slotCount, Object.slotCount, hlength]
  refine ⟨hlimit.trans rep.limit_eq, hnil.trans rep.nil_eq, hused.trans rep.used_eq, rep.le_used,
    rep.used_le, rep.limit_lt, fun {other p} hp => ?_, fun {other other' p p'} hp hp' hne b => ?_⟩
  · rcases ObjectMap.objects_put_cases hp with ⟨rfl, rfl⟩ | ⟨hother, hp⟩
    · exact hold
    · refine (rep.holds hp).congr hused.ge fun b hb => hframe b ?_
      exact rep.disjoint hp ho hother b hb
  · rcases ObjectMap.objects_put_cases hp with ⟨rfl, rfl⟩ | ⟨hother, hq⟩
    · rcases ObjectMap.objects_put_cases hp' with ⟨rfl, -⟩ | ⟨-, hq'⟩
      · exact absurd rfl hne
      · rw [hcovers]
        exact rep.disjoint ho hq' hne b
    · rcases ObjectMap.objects_put_cases hp' with ⟨rfl, rfl⟩ | ⟨-, hq'⟩
      · rw [hcovers]
        exact rep.disjoint hq ho hne b
      · exact rep.disjoint hq hq' hne b

/-- When just the bytes from `start` of the body of an object are written, the object is overwritten
there in the map. -/
theorem overwrite (rep : h.Represents s) (ho : s.objects name = some o) {start : ℕ}
    {bytes : List UInt8} (hfits : start + bytes.length ≤ o.body.length)
    (hlimit : h'.limit = h.limit) (hnil : h'.nil = h.nil) (hused : h'.usedBytes = h.usedBytes)
    (hwrite : ∀ b, h'.byteAt b =
      if name.raw.toNat + 8 + start ≤ b then
        (bytes[b - (name.raw.toNat + 8 + start)]?).getD (h.byteAt b)
      else h.byteAt b) : h'.Represents (s.put name (o.overwrite start bytes)) := by
  have hold := (rep.holds ho).overwrite hfits hused hwrite
  refine rep.put ho (Object.length_overwrite hfits) hlimit hnil hused (fun b hb => ?_) hold
  rw [hwrite]
  split
  · rename_i hstart
    have hbehind : bytes.length ≤ b - (name.raw.toNat + 8 + start) := by
      by_contra hlt
      exact hb ⟨by omega, by omega⟩
    rw [List.getElem?_eq_none hbehind, Option.getD_none]
  · rfl

/-- A fresh object behind all others is a new object in the map. -/
theorem extend (rep : h.Represents s) {words : Array UInt64}
    (hstart : name.raw.toNat + 8 = h.usedBytes + 8 * headerWords o.slotCount)
    (hroom : h.usedBytes + 8 * words.size ≤ h.limit)
    (hold : (h.grow words).Holds name.raw.toNat o) :
    s.objects name = none ∧
      (h.grow words).Represents { s.put name o with used := s.used + 8 * words.size } := by
  have hbehind : ∀ {other : Value} {p : Object}, s.objects other = some p →
      ∀ b, p.Covers other.raw.toNat b → b < h.usedBytes := by
    intro other p hp b hb
    exact hb.2.trans_le (rep.holds hp).fits
  have hfresh : ∀ b, o.Covers name.raw.toNat b → h.usedBytes ≤ b := by
    rintro b ⟨hb, -⟩
    omega
  have hused := rep.used_eq
  have hlimit := rep.limit_eq
  have hgrow := usedBytes_grow h words
  refine ⟨?_, ⟨rep.limit_eq, rep.nil_eq, ?_, ?_, ?_, rep.limit_lt, fun {other p} hp => ?_,
    fun {other other' p p'} hp hp' hne b hb hb' => ?_⟩⟩
  · cases ho : s.objects name with
    | none => rfl
    | some p =>
      have hfits := (rep.holds ho).fits
      rcases o.headerWords_cases with ⟨hwords, -⟩ | ⟨hwords, -⟩ <;> omega
  · rw [hgrow, hused]
  · exact rep.le_used.trans (Nat.le_add_right _ _)
  · show s.used + 8 * words.size ≤ s.limit
    omega
  · rcases ObjectMap.objects_put_cases hp with ⟨rfl, rfl⟩ | ⟨hother, hp⟩
    · exact hold
    · exact (rep.holds hp).congr (by omega) fun b hb => byteAt_grow_of_lt words (hbehind hp b hb)
  · rcases ObjectMap.objects_put_cases hp with ⟨rfl, rfl⟩ | ⟨hother, hq⟩
    · rcases ObjectMap.objects_put_cases hp' with ⟨rfl, -⟩ | ⟨-, hq'⟩
      · exact absurd rfl hne
      · exact Nat.lt_irrefl _ ((hbehind hq' b hb').trans_le (hfresh b hb))
    · rcases ObjectMap.objects_put_cases hp' with ⟨rfl, rfl⟩ | ⟨-, hq'⟩
      · exact Nat.lt_irrefl _ ((hbehind hq b hb).trans_le (hfresh b hb'))
      · exact rep.disjoint hq hq' hne b hb hb'

end Represents

end Heap

end TalkMachine
