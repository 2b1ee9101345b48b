import AgentService.Gateway.SameHost

/-!
# The host of the configured base

`decodeHost` decodes the authority of whatever it is given, the configured base included, as
if it were a header value of ASCII. The URL class has a reading of its own of the same
authority. Both find one host in it where nothing is escaped, and where it is ASCII and no
escape stands for a percent sign.
-/

namespace AgentService
open Lib

/-- The characters that end a host, and those that the URL class takes out of a text. -/
def endsHost (u : UInt16) : Bool := (js "/?#\\\t\n\r").contains u

theorem endsHost_of_isHostUnit {u : UInt16} (h : isHostUnit u = true) : endsHost u = false := by
  by_contra hne
  rw [Bool.not_eq_false] at hne
  have hlist : ∀ v ∈ js "/?#\\\t\n\r", isHostUnit v = false := by
    simpa using (List.all_eq_true (l := js "/?#\\\t\n\r") (p := fun v =>
      !isHostUnit v)).mp (by decide)
  rw [hlist u (by simpa [endsHost] using hne)] at h
  cases h

theorem endsHost_ascii {u : UInt16} (h : endsHost u = true) : u ≠ 0 ∧ u < 0x80 := by
  have hall :=
    List.all_eq_true.mp (show ((js "/?#\\\t\n\r").all fun v => v != 0 && decide (v < 0x80)) =
      true by decide) u (by simpa [endsHost] using h)
  simpa using hall

theorem mem_hexUnits {u : UInt16} (h : isHexUnit u = true) : u ∈ js "0123456789ABCDEFabcdef" := by
  have hbyte : u = u.toUInt8.toUInt16 := by
    simp only [isHexUnit, isDigitUnit, Bool.or_eq_true, Bool.and_eq_true, decide_eq_true_eq,
      UInt16.le_iff_toNat_le, UInt16.reduceToNat] at h
    apply UInt16.toNat_inj.mp
    rw [UInt8.toNat_toUInt16, UInt16.toNat_toUInt8]
    omega
  have hall := forall_byte (p := fun b => isHexUnit b.toUInt16 = true →
    (js "0123456789ABCDEFabcdef").contains b.toUInt16 = true) (by decide +kernel) u.toUInt8
  rw [← hbyte] at hall
  simpa using hall h

theorem isSome_escapedUnit {h l : UInt16} (hh : isHexUnit h = true) (hl : isHexUnit l = true) :
    (escapedUnit h l).isSome = true :=
  List.all_eq_true.mp (List.all_eq_true.mp (show ((js "0123456789ABCDEFabcdef").all fun h =>
    (js "0123456789ABCDEFabcdef").all fun l => (escapedUnit h l).isSome) = true by decide +kernel)
    h (mem_hexUnits hh)) l (mem_hexUnits hl)

/-- What an escape that a host may hold stands for: a character of a host, and a percent sign
only where it is `%25`. -/
theorem isHostUnit_of_escape {h l u : UInt16}
    (hok : (!((isDigitUnit h && h < 0x38) && !(h == 0x32 && l == 0x35))) = true)
    (he : escapedUnit h l = some u) :
    isHostUnit u = true ∧ u ≤ 0xff ∧ (u = 0x25 → h = 0x32 ∧ l = 0x35) := by
  have hhex : isHexUnit h = true ∧ isHexUnit l = true := by
    unfold escapedUnit at he
    split at he
    · rename_i hb
      simpa using hb
    · cases he
  have hall :=
    List.all_eq_true.mp (List.all_eq_true.mp (show ((js "0123456789ABCDEFabcdef").all fun h =>
    (js "0123456789ABCDEFabcdef").all fun l =>
      !(!((isDigitUnit h && h < 0x38) && !(h == 0x32 && l == 0x35))) ||
        (escapedUnit h l).all fun u => isHostUnit u && decide (u ≤ 0xff) &&
          (u != 0x25 || (h == 0x32 && l == 0x35))) = true by decide +kernel)
    h (mem_hexUnits hhex.1)) l (mem_hexUnits hhex.2)
  simp only [hok, Bool.not_true, Bool.false_or, he, Option.all_some, Bool.and_eq_true,
    decide_eq_true_eq, Bool.or_eq_true, bne_iff_ne, beq_iff_eq] at hall
  exact ⟨hall.1.1, hall.1.2, fun hu => hall.2.resolve_left fun hne => hne hu⟩

/-! ## Escapes -/

/-- A host whose escapes Go allows, and what `replaceEscapes` makes of it. -/
inductive HostEscapes : JsString → JsString → Prop
  | nil : HostEscapes [] []
  | unit {c : UInt16} {s t : JsString} (hc : c ≠ 0x25) (h : HostEscapes s t) :
      HostEscapes (c :: s) (c :: t)
  | escape {x y u : UInt16} {s t : JsString} (hu : escapedUnit x y = some u)
      (hhost : isHostUnit u = true ∧ u ≤ 0xff ∧ (u = 0x25 → x = 0x32 ∧ y = 0x35))
      (h : HostEscapes s t) :
      HostEscapes (0x25 :: x :: y :: s) (u :: t)

theorem hostEscapes_replaceEscapes {s : JsString} (h : hostEscapesOk s = true) :
    HostEscapes s (replaceEscapes s) := by
  induction s using replaceEscapes.induct with
  | case1 c x y s u hu ih =>
    obtain rfl : c = 0x25 := by
      by_contra hne
      rw [if_neg hne] at hu
      cases hu
    rw [if_pos rfl] at hu
    simp only [hostEscapesOk, if_true, Bool.and_eq_true] at h
    rw [replaceEscapes, if_pos rfl, hu]
    exact .escape hu (isHostUnit_of_escape h.1.2 hu) (ih h.2)
  | case2 c x y s hu ih =>
    have hc : c ≠ 0x25 := by
      rintro rfl
      simp only [hostEscapesOk, if_true, Bool.and_eq_true] at h
      have hsome := isSome_escapedUnit h.1.1.1 h.1.1.2
      rw [if_pos rfl] at hu
      rw [hu] at hsome
      cases hsome
    rw [hostEscapesOk, if_neg hc] at h
    rw [replaceEscapes, hu]
    exact .unit hc (ih h)
  | case3 s hs =>
    rw [replaceEscapes.eq_2 s hs]
    -- too short for an escape
    match s, hs with
    | [], _ => exact .nil
    | [c], _ =>
      have hc : c ≠ 0x25 := by
        rintro rfl
        cases h
      exact .unit hc .nil
    | [c, d], _ =>
      have hc : c ≠ 0x25 := by
        rintro rfl
        cases h
      have hd : d ≠ 0x25 := by
        rintro rfl
        simp [hostEscapesOk, hc] at h
      exact .unit hc (.unit hd .nil)
    | c :: d :: e :: s, hs => exact absurd rfl (hs c d e s)

namespace HostEscapes
variable {s t : JsString}

theorem eq_of_notMem (h : HostEscapes s t) (hs : 0x25 ∉ s) : t = s := by
  induction h with
  | nil => rfl
  | unit _ _ ih => rw [ih fun hm => hs (List.mem_cons_of_mem _ hm)]
  | escape => exact absurd List.mem_cons_self hs

/-- What holds of the host's characters and of those that may be escaped, holds of
all that is left. -/
theorem forall_mem {P : UInt16 → Prop} (h : HostEscapes s t) (hs : ∀ u ∈ s, P u)
    (hescaped : ∀ u, isHostUnit u = true → u ≤ 0xff → P u) : ∀ u ∈ t, P u := by
  induction h with
  | nil => exact hs
  | unit _ _ ih =>
    rw [List.forall_mem_cons] at hs ⊢
    exact ⟨hs.1, ih hs.2⟩
  | escape _ hhost _ ih =>
    rw [List.forall_mem_cons]
    exact ⟨hescaped _ hhost.1 hhost.2.1, ih fun u hu => hs u (by simp [hu])⟩

theorem length_le (h : HostEscapes s t) : t.length ≤ s.length := by
  induction h with
  | nil => exact Nat.le_refl _
  | unit _ _ ih => exact Nat.succ_le_succ ih
  | escape _ _ _ ih =>
    simp only [List.length_cons]
    omega

/-- An escape is longer than what it stands for. -/
theorem length_lt (h : HostEscapes s t) (hs : 0x25 ∈ s) : t.length < s.length := by
  induction h with
  | nil => cases hs
  | unit hc _ ih => exact Nat.succ_lt_succ (ih ((List.mem_cons.mp hs).resolve_left (Ne.symm hc)))
  | escape _ _ h _ =>
    have hle := h.length_le
    simp only [List.length_cons]
    omega

/-- A percent sign that is left was escaped. -/
theorem escaped_percent (h : HostEscapes s t) (ht : 0x25 ∈ t) : js "%25" <:+: s := by
  induction h with
  | nil => cases ht
  | unit hc _ ih =>
    exact (ih ((List.mem_cons.mp ht).resolve_left (Ne.symm hc))).trans
      (List.suffix_cons _ _).isInfix
  | @escape x y u s t _ hhost _ ih =>
    rcases List.mem_cons.mp ht with rfl | ht
    · obtain ⟨rfl, rfl⟩ := hhost.2.2 rfl
      exact ⟨[], s, rfl⟩
    · exact (ih ht).trans ⟨[0x25, x, y], [], by simp⟩

/-- Where the host is ASCII, it is percent-decoding. -/
theorem percentDecode (h : HostEscapes s t) (hs : ∀ u ∈ s, u < 0x80) :
    Lib.percentDecode (latin1Encode s) = some (latin1Encode t) := by
  induction h with
  | nil => rfl
  | @unit c s t hc _ ih =>
    rw [List.forall_mem_cons] at hs
    have hne : c.toUInt8 ≠ 0x25 := by
      intro he
      have hlt : c.toNat < 128 := UInt16.lt_iff_toNat_lt.mp hs.1
      have hmod := congrArg UInt8.toNat he
      rw [UInt16.toNat_toUInt8] at hmod
      exact hc (UInt16.toNat_inj.mp
        (by rw [← Nat.mod_eq_of_lt (show c.toNat < 2 ^ 8 by omega)]; exact hmod))
    exact (percentDecode_cons hne _).trans
      (by rw [show List.map UInt16.toUInt8 s = latin1Encode s from rfl, ih hs.2]; rfl)
  | @escape x y u s t hu hhost _ ih =>
    have hpair : hexPair x.toUInt8 y.toUInt8 = some u.toUInt8 := by
      unfold escapedUnit at hu
      split at hu
      · obtain ⟨b, hb, rfl⟩ := Option.map_eq_some_iff.mp hu
        rw [hb, UInt8.toUInt8_toUInt16]
      · cases hu
    have ih := ih fun v hv => hs v (by simp [hv])
    simp only [latin1Encode, List.map_cons] at ih ⊢
    rw [show UInt16.toUInt8 0x25 = 0x25 from rfl, Lib.percentDecode.eq_def]
    simp only [if_true, hpair, Option.bind_some, ih, Option.map_some]

end HostEscapes

/-! ## Two readings -/

/-- Where `decodeHost` finds the host that the authority names: nothing is escaped, or the
authority is ASCII and no escape stands for a percent sign. -/
def KeepsHost (authority : JsString) : Prop :=
  0x25 ∉ authority ∨ (∀ u ∈ authority, u < 0x80) ∧ ¬ js "%25" <:+: authority

/-- A host of ASCII that Go allows and that has no percent sign but for escapes of other bytes. -/
structure IsEscapedHost (h : JsString) : Prop where
  accepted : hostAcceptable h = true
  ascii : ∀ u ∈ h, u < 0x80
  no_percent : ¬ js "%25" <:+: h

/-- A host with its bytes percent-decoded and read as UTF-8. -/
def decodedHost (h : JsString) : JsString := utf8ToString ((percentDecode (latin1Encode h)).getD [])

/-- What the URL class does with escapes in a host: they are percent-decoded and read as UTF-8
before anything else is asked of the host. -/
def ReadsEscapedHosts (web : Web) : Prop :=
  ∀ {scheme h}, scheme = js "http" ∨ scheme = js "https" → IsEscapedHost h →
    (web.parseUrl (originText scheme h)).map Url.host =
      (web.parseUrl (originText scheme (decodedHost h))).map Url.host

variable {authority : JsString}

theorem hostEscapesOk_of_acceptable (hok : hostAcceptable authority = true) :
    (∀ u ∈ authority, isHostUnit u = true) ∧ hostEscapesOk authority = true := by
  rw [hostAcceptable, Bool.and_eq_true, Bool.and_eq_true] at hok
  exact ⟨List.all_eq_true.mp hok.1.1, hok.1.2⟩

/-- Of an ASCII host `decodeHost` makes what percent-decoding makes of it. -/
theorem decodeHost_eq_decodedHost (h : IsEscapedHost authority) :
    decodeHost authority = decodedHost authority := by
  have hescapes := hostEscapes_replaceEscapes (hostEscapesOk_of_acceptable h.accepted).2
  rw [decodedHost, hescapes.percentDecode h.ascii, Option.getD_some, decodeHost]
  split
  · rfl
  · rename_i hnone
    have hbytes := latin1_of_ascii h.ascii
    rw [hescapes.eq_of_notMem (by simpa using hnone), utf8ToString_ascii hbytes.2, hbytes.1]

/-- An ASCII character of a host that is decoded was there, or was escaped. -/
theorem mem_of_mem_decodeHost (hok : hostAcceptable authority = true) (hkeeps : KeepsHost authority)
    {u : UInt16} (h0 : u ≠ 0) (hu : u < 0x80) (h : u ∈ decodeHost authority) :
    u ∈ replaceEscapes authority := by
  have hescapes := hostEscapes_replaceEscapes (hostEscapesOk_of_acceptable hok).2
  unfold decodeHost at h
  split at h
  · rename_i hescape
    have hascii := (hkeeps.resolve_left (by simpa using hescape)).1
    have hlatin : ∀ v ∈ authority, v ≤ 0xff := fun v hv =>
      UInt16.le_of_lt (UInt16.lt_trans (hascii v hv) (by decide))
    obtain ⟨v, hv, hvu⟩ := List.mem_map.mp (mem_utf8ToString_ascii h0 hu h)
    have hle := hescapes.forall_mem hlatin (fun _ _ h => h) v hv
    have hsame : v = u := by
      have hvlt : v.toNat ≤ 255 := UInt16.le_iff_toNat_le.mp hle
      have hult : u.toNat < 128 := UInt16.lt_iff_toNat_lt.mp hu
      have hmod := congrArg UInt8.toNat hvu
      rw [UInt16.toNat_toUInt8, UInt16.toNat_toUInt8] at hmod
      exact UInt16.toNat_inj.mp (by omega)
    exact hsame ▸ hv
  · rename_i hnone
    rwa [hescapes.eq_of_notMem (by simpa using hnone)]

/-- A host that is accepted and kept holds nothing that would end it. -/
theorem decodeHost_units (hok : hostAcceptable authority = true) (hkeeps : KeepsHost authority) :
    ∀ u ∈ decodeHost authority, endsHost u = false := by
  intro u hu
  by_contra hends
  rw [Bool.not_eq_false] at hends
  obtain ⟨h0, hascii⟩ := endsHost_ascii hends
  obtain ⟨hunits, hescapesOk⟩ := hostEscapesOk_of_acceptable hok
  have hescapes := hostEscapes_replaceEscapes hescapesOk
  have hhost :=
    hescapes.forall_mem hunits (fun _ h _ => h) u (mem_of_mem_decodeHost hok hkeeps h0 hascii hu)
  rw [endsHost_of_isHostUnit hhost] at hends
  cases hends

/-- The URL class finds one host in the authority and in what `decodeHost` makes of it. -/
theorem exists_own_host {web : Web} (hweb : ReadsEscapedHosts web)
    (hok : hostAcceptable authority = true) (hkeeps : KeepsHost authority) {scheme : JsString}
    (hscheme : scheme = js "http" ∨ scheme = js "https") {origin : Url}
    (horigin : web.parseUrl (originText scheme (decodeHost authority)) = some origin) :
    ∃ own, web.parseUrl (originText scheme authority) = some own ∧ origin.host = own.host := by
  rcases hkeeps with hplain | ⟨hascii, hpercent⟩
  · rw [decodeHost, if_neg (by simpa using hplain)] at horigin
    exact ⟨origin, horigin, rfl⟩
  · have hescaped : IsEscapedHost authority := ⟨hok, hascii, hpercent⟩
    have hreads := hweb hscheme hescaped
    rw [← decodeHost_eq_decodedHost hescaped, horigin, Option.map_some,
      Option.map_eq_some_iff] at hreads
    obtain ⟨own, hown, hhost⟩ := hreads
    exact ⟨own, hown, hhost.symm⟩

theorem IsEscapedHost.keepsHost (h : IsEscapedHost authority) : KeepsHost authority :=
  .inr ⟨h.ascii, h.no_percent⟩

/-- No percent sign is left of a host whose escapes are of other bytes. -/
theorem percent_notMem_decodedHost (h : IsEscapedHost authority) :
    0x25 ∉ decodedHost authority := by
  rw [← decodeHost_eq_decodedHost h]
  intro hm
  have hleft := mem_of_mem_decodeHost h.accepted h.keepsHost (by decide) (by decide) hm
  exact h.no_percent ((hostEscapes_replaceEscapes
    (hostEscapesOk_of_acceptable h.accepted).2).escaped_percent hleft)

/-- Neither the host nor what it decodes to holds a character that would end it. -/
theorem endsHost_notMem (h : IsEscapedHost authority) {u : UInt16} (hends : endsHost u = true) :
    u ∉ authority ∧ u ∉ decodedHost authority := by
  rw [← decodeHost_eq_decodedHost h]
  constructor
  · intro hm
    have hin := endsHost_of_isHostUnit ((hostEscapesOk_of_acceptable h.accepted).1 u hm)
    rw [hends] at hin
    cases hin
  · intro hm
    have hin := decodeHost_units h.accepted h.keepsHost u hm
    rw [hends] at hin
    cases hin

theorem length_decodeHost_le (hok : hostAcceptable authority = true) :
    (decodeHost authority).length ≤ authority.length := by
  have hescapes := hostEscapes_replaceEscapes (hostEscapesOk_of_acceptable hok).2
  unfold decodeHost
  split
  · refine Nat.le_trans (length_utf8ToString_le _) ?_
    rw [latin1Encode, List.length_map]
    exact hescapes.length_le
  · exact Nat.le_refl _

/-- Decoding makes a host with an escape shorter. -/
theorem length_decodeHost_lt (hok : hostAcceptable authority = true) (hescaped : 0x25 ∈ authority) :
    (decodeHost authority).length < authority.length := by
  have hescapes := hostEscapes_replaceEscapes (hostEscapesOk_of_acceptable hok).2
  rw [decodeHost, if_pos (by simpa using hescaped)]
  refine Nat.lt_of_le_of_lt (length_utf8ToString_le _) ?_
  rw [latin1Encode, List.length_map]
  exact hescapes.length_lt hescaped

end AgentService
