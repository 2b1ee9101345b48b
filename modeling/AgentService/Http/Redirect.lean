import AgentService.Http.MuxCompat

/-!
# The cleaning redirect

`cleanPath` lands on the rooted normal form and leaves it alone, an escaped path is read
back as the bytes it was made of, and so the `Location` of a 301 is passed on when it
comes back as a request target.
-/

namespace AgentService
open Lib

/-! ## `cleanPath` -/

theorem cleanSegment_plain {out : List JsString} {seg : JsString}
    (hout : ∀ s ∈ out, IsPlainSegment s) (hseg : 0x2f ∉ seg) :
    ∀ s ∈ cleanSegment out seg, IsPlainSegment s := by
  intro s hs
  unfold cleanSegment at hs
  split_ifs at hs with h1 h2
  · exact hout s hs
  · exact hout s (List.dropLast_subset _ hs)
  · rcases List.mem_append.mp hs with hs | hs
    · exact hout s hs
    · rw [List.mem_singleton.mp hs]
      exact ⟨fun h => h1 (.inl h), fun h => h1 (.inr h), h2, hseg⟩

theorem foldl_cleanSegment_plain (segs : List JsString) :
    ∀ out : List JsString, (∀ s ∈ out, IsPlainSegment s) → (∀ s ∈ segs, (0x2f : UInt16) ∉ s) →
      ∀ s ∈ segs.foldl cleanSegment out, IsPlainSegment s := by
  induction segs with
  | nil => intro out hout _; exact hout
  | cons seg segs ih =>
    intro out hout hsegs
    rw [List.foldl_cons]
    exact ih _ (cleanSegment_plain hout (hsegs seg (by simp)))
      fun s hs => hsegs s (List.mem_cons_of_mem _ hs)

theorem cleanSegment_of_plain {out : List JsString} {seg : JsString} (h : IsPlainSegment seg) :
    cleanSegment out seg = out ++ [seg] := by
  unfold cleanSegment
  rw [if_neg (by rintro (he | he) <;> [exact h.ne_nil he; exact h.ne_dot he]), if_neg h.ne_dots]

theorem foldl_cleanSegment_of_plain (segs : List JsString) :
    ∀ out : List JsString, (∀ s ∈ segs, IsPlainSegment s) →
      segs.foldl cleanSegment out = out ++ segs := by
  induction segs with
  | nil => intro out _; simp
  | cons seg segs ih =>
    intro out h
    rw [List.foldl_cons, cleanSegment_of_plain (h seg (by simp)),
      ih _ fun s hs => h s (List.mem_cons_of_mem _ hs), List.append_assoc, List.singleton_append]

/-- A cleaned path is in normal form. -/
theorem cleanPath_eq_render (p : JsString) : ∃ c : RootedPath, cleanPath p = c.render := by
  unfold cleanPath
  by_cases hp : p = []
  · rw [if_pos hp]
    exact ⟨⟨[], by simp, false, by simp⟩, rfl⟩
  rw [if_neg hp]
  dsimp only
  generalize (if p.head? = some 0x2f then p else 0x2f :: p) = rooted
  have hplain := foldl_cleanSegment_plain (rooted.splitOn 0x2f) [] (by simp)
    fun s hs => notMem_of_mem_splitOn hs
  generalize (rooted.splitOn 0x2f).foldl cleanSegment [] = out at hplain ⊢
  split_ifs with h
  · refine ⟨⟨out, hplain, true, ?_⟩, by simp [RootedPath.render]⟩
    rintro - rfl
    exact h.2 rfl
  · exact ⟨⟨out, hplain, false, by simp⟩, by simp [RootedPath.render]⟩

theorem foldl_pieces (c : RootedPath) :
    ([] :: c.pieces).foldl cleanSegment [] = c.segments := by
  have hnil : ∀ out, cleanSegment out [] = out := fun out => if_pos (.inl rfl)
  rw [List.foldl_cons, hnil, RootedPath.pieces]
  by_cases hs : c.segments = []
  · rw [if_pos hs, hs]
    exact hnil []
  · rw [if_neg hs, List.foldl_append, foldl_cleanSegment_of_plain _ _ c.plain, List.nil_append]
    cases c.directory
    · rfl
    · exact hnil _

/-- The normal form is left alone. -/
theorem cleanPath_render (c : RootedPath) : cleanPath c.render = c.render := by
  have hne : c.render ≠ [] := by simp [RootedPath.render]
  have hrooted : (if c.render.head? = some 0x2f then c.render else 0x2f :: c.render) = c.render :=
    if_pos (by simp [RootedPath.render])
  unfold cleanPath
  rw [if_neg hne]
  dsimp only
  rw [hrooted, RootedPath.splitOn_render, foldl_pieces]
  have hlast := c.getLast?_render
  by_cases hs : c.segments = []
  · have hd : c.directory = false := by
      by_contra h
      exact c.segments_ne_nil (by simpa using h) hs
    have hclean : (0x2f :: [0x2f].intercalate c.segments : JsString) = js "/" := by rw [hs]; rfl
    rw [if_neg (fun h => h.2 hclean), RootedPath.render, hd]
    simp
  · have hclean : (0x2f :: [0x2f].intercalate c.segments : JsString) ≠ js "/" := by
      obtain ⟨s, ss, he⟩ := List.exists_cons_of_ne_nil hs
      have hn := (c.plain s (by simp [he])).ne_nil
      rw [he]
      intro h
      have h : [0x2f].intercalate (s :: ss) = ([] : JsString) := (List.cons.inj h).2
      cases ss with
      | nil => exact hn (by simpa using h)
      | cons t ts => simp [List.intercalate_cons_cons] at h
    cases hd : c.directory with
    | true =>
      rw [if_pos ⟨hlast.mpr (.inr hd), hclean⟩, RootedPath.render, hd]
      rfl
    | false =>
      have hno : ¬c.render.getLast? = some 0x2f := by rw [hlast, hd]; simp [hs]
      rw [if_neg fun h => hno h.1, RootedPath.render, hd]
      simp

@[simp] theorem cleanPath_idempotent (p : JsString) : cleanPath (cleanPath p) = cleanPath p := by
  obtain ⟨c, hc⟩ := cleanPath_eq_render p
  rw [hc, cleanPath_render]

/-- Cleaning brings in no character but the slash. -/
theorem mem_cleanPath {p : JsString} {u : UInt16} (h : u ∈ cleanPath p) : u ∈ p ∨ u = 0x2f := by
  have hfold : ∀ (segs : List JsString) (out : List JsString),
      ∀ s ∈ segs.foldl cleanSegment out, s ∈ segs ∨ s ∈ out := by
    intro segs
    induction segs with
    | nil => intro out s hs; exact .inr hs
    | cons seg segs ih =>
      intro out s hs
      rw [List.foldl_cons] at hs
      rcases ih _ s hs with hs | hs
      · exact .inl (List.mem_cons_of_mem _ hs)
      · unfold cleanSegment at hs
        split_ifs at hs
        · exact .inr hs
        · exact .inr (List.dropLast_subset _ hs)
        · rcases List.mem_append.mp hs with hs | hs
          · exact .inr hs
          · exact .inl (by rw [List.mem_singleton.mp hs]; simp)
  unfold cleanPath at h
  by_cases hp : p = []
  · rw [if_pos hp] at h
    exact .inr (List.mem_singleton.mp h)
  rw [if_neg hp] at h
  dsimp only at h
  have hrooted : ∀ x ∈ (if p.head? = some 0x2f then p else 0x2f :: p), x ∈ p ∨ x = 0x2f := by
    intro x hx
    split_ifs at hx
    · exact .inl hx
    · rcases List.mem_cons.mp hx with rfl | hx
      · exact .inr rfl
      · exact .inl hx
  generalize (if p.head? = some 0x2f then p else 0x2f :: p) = rooted at h hrooted
  have hout : u ∈ [0x2f].intercalate ((rooted.splitOn 0x2f).foldl cleanSegment []) →
      u ∈ p ∨ u = 0x2f := by
    intro hu
    rcases mem_intercalate hu with rfl | ⟨s, hs, hu⟩
    · exact .inr rfl
    · rcases hfold _ [] s hs with hs | hs
      · exact hrooted u (mem_of_mem_splitOn hs hu)
      · simp at hs
  split_ifs at h
  · rcases List.mem_append.mp h with h | h
    · rcases List.mem_cons.mp h with rfl | h
      · exact .inr rfl
      · exact hout h
    · exact .inr (List.mem_singleton.mp h)
  · rcases List.mem_cons.mp h with rfl | h
    · exact .inr rfl
    · exact hout h

/-! ## Escapes -/

theorem unescapeBytes_escapeWith {keep : String} (hk : 0x25 ∉ js keep) (bytes : Bytes) :
    unescapeBytes (escapeWith bytes keep) = some bytes := by
  rw [unescapeBytes, escapeWith, latin1Encode_decode]
  refine percentDecode_encode ?_ bytes
  simpa [isUnreserved] using hk

/-- What an escaped text is made of. -/
theorem mem_escapeWith {bytes : Bytes} {keep : String} {u : UInt16}
    (h : u ∈ escapeWith bytes keep) :
    ∃ b : UInt8, u = b.toUInt16 ∧
      (isUnreserved b = true ∨ b.toUInt16 ∈ js keep ∨ isPercentUnit b = true) := by
  obtain ⟨b, hb, rfl⟩ := List.mem_map.mp h
  refine ⟨b, rfl, ?_⟩
  rcases mem_percentEncode hb with ⟨hk, -⟩ | hp
  · rcases Bool.or_eq_true_iff.mp hk with hk | hk
    · exact .inl hk
    · exact .inr (.inl (by simpa using hk))
  · exact .inr (.inr hp)

/-- A printable ASCII character that ends neither a path nor a query. -/
def IsPathUnit (u : UInt16) : Prop := 0x20 < u ∧ u < 0x7f ∧ u ≠ 0x3f ∧ u ≠ 0x23 ∧ u ≠ 0x5c

instance (u : UInt16) : Decidable (IsPathUnit u) := by unfold IsPathUnit; infer_instance

theorem isPathUnit_of_escaped {b : UInt8} {keep : String}
    (hk : ∀ u ∈ js keep, IsPathUnit u)
    (h : isUnreserved b = true ∨ b.toUInt16 ∈ js keep ∨ isPercentUnit b = true) :
    IsPathUnit b.toUInt16 := by
  have hsets : ∀ b : UInt8, isUnreserved b = true ∨ isPercentUnit b = true →
      IsPathUnit b.toUInt16 :=
    forall_byte (by decide +kernel)
  rcases h with h | h | h
  · exact hsets b (.inl h)
  · exact hk _ h
  · exact hsets b (.inr h)

theorem escapeWith_units {bytes : Bytes} {keep : String} (hk : ∀ u ∈ js keep, IsPathUnit u) :
    ∀ u ∈ escapeWith bytes keep, IsPathUnit u := by
  intro u hu
  obtain ⟨b, rfl, hb⟩ := mem_escapeWith hu
  exact isPathUnit_of_escaped hk hb

theorem notMem_escapeWith {bytes : Bytes} {keep : String} (hk : ∀ u ∈ js keep, IsPathUnit u) :
    0x3f ∉ escapeWith bytes keep :=
  fun h => (escapeWith_units hk _ h).2.2.1 rfl

theorem keep_units {keep : String} (h : (js keep).all (fun u => decide (IsPathUnit u)) = true) :
    ∀ u ∈ js keep, IsPathUnit u :=
  fun u hu => of_decide_eq_true (List.all_eq_true.mp h u hu)

theorem locationKeep_units : ∀ u ∈ js "$&+,/:;=@", IsPathUnit u := keep_units (by decide)

theorem routingKeep_units : ∀ u ∈ js "/!$&'()*+,;=:@", IsPathUnit u := keep_units (by decide)

/-! ## The target -/

/-- Scheme and authority hold no `?`, so the target's query is the URL's. -/
theorem targetOf_eq {url target : JsString} (h : targetOf url = some target) :
    ∃ pre, url = pre ++ target ∧ 0x3f ∉ pre := by
  unfold targetOf at h
  cases habs : absoluteForm url with
  | none =>
    simp only [habs] at h
    split_ifs at h
    exact ⟨[], by simpa using h, by simp⟩
  | some groups =>
    obtain ⟨authority, rest⟩ := groups
    simp only [habs] at h
    split_ifs at h
    obtain rfl := Option.some.inj h
    unfold absoluteForm at habs
    cases url with
    | nil => cases habs
    | cons c s =>
      dsimp only at habs
      split_ifs at habs with hc
      split at habs
      · rename_i tail htail
        simp only [Option.some.injEq, Prod.mk.injEq] at habs
        obtain ⟨hauth, hrest⟩ := habs
        have hs : s = s.takeWhile isSchemeUnit ++ 0x3a :: 0x2f :: 0x2f :: tail := by
          rw [← htail, List.takeWhile_append_dropWhile]
        have ht : tail = authority ++ rest := by
          rw [← hauth, ← hrest, List.takeWhile_append_dropWhile]
        refine ⟨c :: (s.takeWhile isSchemeUnit ++ [0x3a, 0x2f, 0x2f] ++ authority), ?_, ?_⟩
        · conv_lhs => rw [hs, ht]
          simp
        · have h1 : (0x3f : UInt16) ≠ c := by rintro rfl; simp [isSchemeStart] at hc
          have h2 : (0x3f : UInt16) ∉ s.takeWhile isSchemeUnit := fun hm => by
            have := List.mem_takeWhile_imp hm
            simp [isSchemeUnit, isSchemeStart] at this
          have h3 : (0x3f : UInt16) ∉ authority := fun hm => by
            rw [← hauth] at hm
            have := List.mem_takeWhile_imp hm
            simp at this
          simp [h1, h2, h3]
      · cases habs

theorem fromFirst_targetOf {url target : JsString} (h : targetOf url = some target) :
    fromFirst 0x3f target = fromFirst 0x3f url := by
  obtain ⟨pre, rfl, hpre⟩ := targetOf_eq h
  rw [fromFirst_append hpre]

/-- A target that starts with a slash is no absolute form. -/
theorem targetOf_slash (s : JsString) : targetOf (0x2f :: s) = some (0x2f :: s) := rfl

/-- Everything `muxCompat` can do with a request target. -/
theorem muxCompat_cases (url : JsString) :
    muxCompat url = .answered badRequest ∨
    ∃ target decoded, targetOf url = some target ∧ unescapeBytes (before 0x3f target) =
      some decoded ∧
      ((cleanPath (latin1Decode decoded) ≠ latin1Decode decoded ∧
          muxCompat url = .answered (movedTo (escapeForLocation
            (latin1Encode (cleanPath (latin1Decode decoded))) ++ fromFirst 0x3f url))) ∨
        (cleanPath (latin1Decode decoded) = latin1Decode decoded ∧
          muxCompat url = .next ⟨decoded, escapeForRouting (stringToUtf8 (utf8ToString decoded)) ++
            fromFirst 0x3f url⟩)) := by
  unfold muxCompat
  cases ht : targetOf url with
  | none => exact .inl rfl
  | some target =>
    have hq := fromFirst_targetOf ht
    dsimp only
    cases hd : unescapeBytes (before 0x3f target) with
    | none => exact .inl rfl
    | some decoded =>
      refine .inr ⟨target, decoded, rfl, hd, ?_⟩
      dsimp only
      rw [hq]
      by_cases hc : cleanPath (latin1Decode decoded) = latin1Decode decoded
      · exact .inr ⟨hc, if_neg (not_not.mpr hc)⟩
      · exact .inl ⟨hc, if_pos hc⟩

/-- A cleaned path is Latin-1 when the path was: it goes through bytes unchanged. -/
theorem latin1_cleanPath (decoded : Bytes) :
    latin1Decode (latin1Encode (cleanPath (latin1Decode decoded))) =
      cleanPath (latin1Decode decoded) := by
  have hunit : ∀ u ∈ cleanPath (latin1Decode decoded), u.toUInt8.toUInt16 = u := by
    intro u hu
    rcases mem_cleanPath hu with hu | rfl
    · obtain ⟨b, -, rfl⟩ := List.mem_map.mp hu
      rw [UInt8.toUInt8_toUInt16]
    · rfl
  rw [latin1Decode, latin1Encode, List.map_map]
  conv_rhs => rw [← List.map_id (cleanPath (latin1Decode decoded))]
  exact List.map_congr_left hunit

/-- After its slash, an escaped clean path opens with neither a slash nor a backslash. -/
theorem escapeForLocation_clean {cleaned : Bytes} {c : RootedPath}
    (hc : latin1Decode cleaned = c.render) :
    ∃ s, escapeForLocation cleaned = 0x2f :: s ∧ ∀ u ∈ s.head?, u ≠ 0x2f ∧ u ≠ 0x5c := by
  cases cleaned with
  | nil => simp [latin1Decode, RootedPath.render] at hc
  | cons b bs =>
    have hb : b = 0x2f := by
      have := (List.cons.inj hc).1
      simpa using congrArg UInt16.toUInt8 this
    subst hb
    have hkeep : isUnreserved 0x2f = false ∧ 0x2f ∈ js "$&+,/:;=@" := by decide
    refine ⟨escapeForLocation bs, ?_, ?_⟩
    · simp [escapeForLocation, escapeWith, percentEncode_cons, hkeep, latin1Decode]
    · intro u hu
      have hmem : u ∈ escapeForLocation bs := List.mem_of_mem_head? hu
      refine ⟨?_, (escapeWith_units locationKeep_units u hmem).2.2.2.2⟩
      rintro rfl
      cases bs with
      | nil => simp [escapeForLocation, escapeWith, latin1Decode] at hu
      | cons x xs =>
        have hx : x ≠ 0x2f := by
          rintro rfl
          exact c.render_second (latin1Decode xs) hc.symm
        simp only [escapeForLocation, escapeWith, percentEncode_cons] at hu
        split_ifs at hu with hk
        · simp [latin1Decode] at hu
          exact hx (by simpa using congrArg UInt16.toUInt8 hu)
        · simp [latin1Decode, percentByte] at hu

/-- `cleaned` is what `cleanPath` makes of the decoded path of a request target. -/
def IsCleanedPathOf (url : JsString) (cleaned : Bytes) : Prop :=
  ∃ target decoded, targetOf url = some target ∧ unescapeBytes (before 0x3f target) = some decoded ∧
    latin1Decode cleaned = cleanPath (latin1Decode decoded)

/-- What makes a `Location` safe to follow from `url`, and final. -/
structure IsFinalRedirect (url location : JsString) (cleaned : Bytes) : Prop where
  rooted : location.head? = some 0x2f
  /-- No reader takes it for another host. -/
  second : ∀ u, location[1]? = some u → u ≠ 0x2f ∧ u ≠ 0x5c
  path_units : ∀ u ∈ before 0x3f location, IsPathUnit u
  path_decodes : unescapeBytes (before 0x3f location) = some cleaned
  query_kept : fromFirst 0x3f location = fromFirst 0x3f url
  passed_on : ∃ req, muxCompat location = .next req ∧ req.decodedPath = cleaned ∧
    fromFirst 0x3f req.url = fromFirst 0x3f url

/-- A 301 of the path rules sends the caller to a path of this host that is passed on, with the
bytes it stands for and the query the caller came with: the redirect is followed at most once. -/
theorem redirect_converges {url : JsString} {res : Answer} (h : muxCompat url = .answered res)
    (h301 : res.status = 301) :
    ∃ location cleaned, res = movedTo location ∧ IsCleanedPathOf url cleaned ∧
      IsFinalRedirect url location cleaned := by
  rcases muxCompat_cases url with hbad | ⟨target, decoded, ht, hd, ⟨-, hmoved⟩ | ⟨-, hnext⟩⟩
  · rw [hbad] at h
    cases h
    exact absurd h301 (by decide)
  · rw [hmoved] at h
    cases h
    have hlatin := latin1_cleanPath decoded
    obtain ⟨c, hc⟩ := cleanPath_eq_render (latin1Decode decoded)
    generalize hcl : latin1Encode (cleanPath (latin1Decode decoded)) = cleaned at hlatin hmoved ⊢
    obtain ⟨s, hs, hsecond⟩ := escapeForLocation_clean (hlatin.trans hc)
    have hno : 0x3f ∉ escapeForLocation cleaned := notMem_escapeWith locationKeep_units
    have hbefore : before 0x3f (escapeForLocation cleaned ++ fromFirst 0x3f url) =
        escapeForLocation cleaned := by
      rw [before_append hno, before_fromFirst, List.append_nil]
    have hquery : fromFirst 0x3f (escapeForLocation cleaned ++ fromFirst 0x3f url) =
        fromFirst 0x3f url := by
      rw [fromFirst_append hno, fromFirst_fromFirst]
    have hback : unescapeBytes (escapeForLocation cleaned) = some cleaned :=
      unescapeBytes_escapeWith (by decide) cleaned
    have htarget : targetOf (escapeForLocation cleaned ++ fromFirst 0x3f url) =
        some (escapeForLocation cleaned ++ fromFirst 0x3f url) := by
      rw [hs, List.cons_append]
      exact targetOf_slash _
    refine ⟨_, cleaned, rfl, ⟨target, decoded, ht, hd, hlatin⟩, ⟨?_, ?_, ?_, ?_, hquery, ?_⟩⟩
    · rw [hs]; rfl
    · intro u hu
      rw [hs, List.cons_append, List.getElem?_cons_succ] at hu
      cases s with
      | nil =>
        rcases fromFirst_eq (0x3f : UInt16) url with hq | ⟨post, hq⟩
        · simp [hq] at hu
        · simp [hq] at hu
          subst hu
          decide
      | cons v s =>
        simp at hu
        exact hsecond u (by simp [hu])
    · rw [hbefore]
      exact escapeWith_units locationKeep_units
    · rw [hbefore, hback]
    · rcases muxCompat_cases (escapeForLocation cleaned ++ fromFirst 0x3f url) with
        hbad | ⟨target', decoded', ht', hd', hcases⟩
      · simp only [muxCompat, htarget, hbefore, hback] at hbad
        rw [if_neg (by rw [not_not, hlatin, cleanPath_idempotent])] at hbad
        cases hbad
      · rw [htarget] at ht'
        cases ht'
        rw [hbefore, hback] at hd'
        cases hd'
        rcases hcases with ⟨hne, -⟩ | ⟨-, hnext⟩
        · rw [hlatin, cleanPath_idempotent] at hne
          exact absurd rfl hne
        · refine ⟨_, hnext, rfl, ?_⟩
          dsimp only
          rw [hquery, escapeForRouting, fromFirst_append (notMem_escapeWith routingKeep_units),
            fromFirst_fromFirst]
  · rw [hnext] at h
    cases h

/-- A target in absolute form with dots, a doubled slash, an escaped `?` and a query. -/
theorem redirect_converges_dots :
    ∃ location cleaned, movedTo (js "/a/%3F/c/?q=1") = movedTo location ∧
      IsCleanedPathOf (js "http://h/a/./b%2F../%3F//c/?q=1") cleaned ∧
      IsFinalRedirect (js "http://h/a/./b%2F../%3F//c/?q=1") location cleaned :=
  redirect_converges (by decide +kernel) rfl

end AgentService
