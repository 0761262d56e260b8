import Pikamux.Feed.Summary

/-!
# Feed — Frames

What a decoder makes of a summary's frames.

* `Sound` — a summary whose label is one that the decoder takes, and whose counts are not at odds
  with it; the summary of any rows, under any filter, is one (`summarize_sound`).
* `decodeLabelled_eq` — the decoder of the second version, which the later ones are brought to.
* `frame_decoded` — each version of a sound summary reads as the summary, without its label where
  the version has no name for what it is.
-/

namespace Pikamux.Feed

open Support Json Channel

/-! ### Labels -/

section Labels

variable {isAlphanumeric : Char → Bool}

theorem fitting_sublist (room : Nat) (text : Text) :
    (fitting room text).Sublist text ∧ charsBytes (fitting room text) ≤ room := by
  induction text generalizing room with
  | nil => exact ⟨.slnil, Nat.zero_le _⟩
  | cons c text ih =>
      rw [fitting]
      by_cases hroom : room < c.utf8Size
      · rw [if_pos hroom]
        exact ⟨List.nil_sublist _, Nat.zero_le _⟩
      · rw [if_neg hroom, charsBytes_cons]
        obtain ⟨hsub, hbytes⟩ := ih (room - c.utf8Size)
        exact ⟨hsub.cons_cons c, by omega⟩

theorem fitting_of_le {room : Nat} {text : Text} (h : charsBytes text ≤ room) :
    fitting room text = text := by
  induction text generalizing room with
  | nil => rfl
  | cons c text ih =>
      rw [charsBytes_cons] at h
      rw [fitting, if_neg (by omega), ih (by omega)]

theorem trim_sublist (text : Text) : (trim text).Sublist text :=
  (List.rdropWhile_prefix isWhitespace _).sublist.trans (List.dropWhile_sublist _)

theorem trim_trim (text : Text) : trim (trim text) = trim text := by
  have hfront : (trim text).dropWhile isWhitespace = trim text := by
    rw [trim]
    generalize hm : text.dropWhile isWhitespace = m
    have hstart : m.dropWhile isWhitespace = m := hm ▸ List.dropWhile_idempotent _ _
    cases hend : m.rdropWhile isWhitespace with
    | nil => rfl
    | cons c rest =>
        -- what is left begins as the text without its leading blanks does
        obtain ⟨t, rfl⟩ := hend ▸ List.rdropWhile_prefix isWhitespace m
        have hc : ¬ isWhitespace c = true := by
          intro hc
          rw [List.cons_append, List.dropWhile_cons_of_pos hc] at hstart
          have hlength := (List.dropWhile_sublist isWhitespace (l := rest ++ t)).length_le
          rw [hstart, List.length_cons] at hlength
          omega
        rw [List.dropWhile_cons_of_neg hc]
  conv_lhs => rw [trim, hfront]
  exact List.rdropWhile_idempotent _ _

theorem charsBytes_sublist {l m : Text} (h : l.Sublist m) : charsBytes l ≤ charsBytes m := by
  induction h with
  | slnil => exact Nat.le_refl _
  | cons c _ ih => exact ih.trans (by rw [charsBytes_cons]; omega)
  | cons_cons c _ ih =>
      rw [charsBytes_cons, charsBytes_cons]
      omega

theorem charsBytes_safeLabel (value : Text) : charsBytes (safeLabel isAlphanumeric value) ≤ 160 :=
  (charsBytes_sublist (trim_sublist _)).trans (fitting_sublist _ _).2

/-- What the decoder compares a label with is the label itself. -/
theorem safeLabel_safeLabel (value : Text) :
    safeLabel isAlphanumeric (safeLabel isAlphanumeric value) = safeLabel isAlphanumeric value := by
  have hallowed : ∀ c ∈ safeLabel isAlphanumeric value, allowed isAlphanumeric c = true := by
    intro c hc
    have hfit := (trim_sublist _).trans (fitting_sublist 160 _).1 |>.subset hc
    exact (List.mem_filter.mp hfit).2
  have hkeep : fitting 160 ((safeLabel isAlphanumeric value).filter (allowed isAlphanumeric)) =
      safeLabel isAlphanumeric value := by
    rw [List.filter_eq_self.mpr hallowed, fitting_of_le (charsBytes_safeLabel value)]
  rw [safeLabel, hkeep, safeLabel, trim_trim]

end Labels

/-! ### Sound summaries -/

/-- A summary that the decoder takes. -/
structure Sound (isAlphanumeric : Char → Bool) (s : Summary) : Prop where
  counts : ∀ n ∈ s.counts.all, n ≤ 1000000
  label : ∀ label, s.latestAttention = some label → label ≠ [] ∧ charsBytes label ≤ 160 ∧
    safeLabel isAlphanumeric label = label
  attended : s.attention.isSome → s.latestAttention.isSome
  request : s.latestAttention.isSome → s.attention ≠ some .ready → s.counts.needsYou ≠ 0
  ready : s.attention = some .ready → s.counts.ready ≠ 0

section Summarize

variable {τ : Type} [LinearOrder τ] {isAlphanumeric : Char → Bool} {lowercase : Text → Text}
  {time : τ → τ} {items : List (BoardItem τ)} {needle : Text} {category : Category}
  {item : BoardItem τ}

/-- The latest row of a group is one of the rows that are counted. -/
theorem latest_counted (h : latest lowercase time items needle category = some item) :
    group item.session.status false = category ∧
      (shown lowercase items needle category).length ≠ 0 := by
  rcases newest_mem h with hnone | hmem
  · cases hnone
  · obtain ⟨hitem, hrow⟩ := List.mem_filter.mp hmem
    simp only [Bool.and_eq_true, beq_iff_eq, Bool.not_eq_true'] at hrow
    obtain ⟨⟨⟨hstale, -⟩, hgroup⟩, hmatches⟩ := hrow
    have hshown : item ∈ shown lowercase items needle category := by
      refine List.mem_filter.mpr ⟨hitem, ?_⟩
      rw [hmatches, hstale, hgroup]
      simp
    exact ⟨hgroup, List.length_pos_iff_exists_mem.mpr ⟨item, hshown⟩ |>.ne'⟩

/-- The row that wants attention asks for it, or is ready and said to be. -/
theorem chosen_counted {suffix : Option AttentionKind}
    (h : chosen lowercase time items needle = some (item, suffix)) :
    (suffix = none ∧ (shown lowercase items needle .needsYou).length ≠ 0) ∨
      (suffix = some .ready ∧ (shown lowercase items needle .ready).length ≠ 0) := by
  rw [chosen] at h
  cases hneeds : latest lowercase time items needle .needsYou with
  | some first =>
      rw [hneeds] at h
      cases h
      exact .inl ⟨rfl, (latest_counted hneeds).2⟩
  | none =>
      rw [hneeds] at h
      obtain ⟨first, hready, hpair⟩ := Option.map_eq_some_iff.mp h
      cases hpair
      exact .inr ⟨rfl, (latest_counted hready).2⟩

theorem warning_ne_ready (status : Status) : warning status ≠ some .ready := by
  cases status <;> decide

theorem latestAttention_spec {label : Text} {attention : Option AttentionKind}
    (h : latestAttention isAlphanumeric lowercase time items needle = some (label, attention)) :
    (label ≠ [] ∧ ∃ value, label = safeLabel isAlphanumeric value) ∧
      (attention ≠ some .ready → (shown lowercase items needle .needsYou).length ≠ 0) ∧
      (attention = some .ready → (shown lowercase items needle .ready).length ≠ 0) := by
  obtain ⟨⟨latest, suffix⟩, hchosen, hlabel⟩ := Option.bind_eq_some_iff.mp h
  simp only [Option.ite_none_left_eq_some, Option.some.injEq, Prod.mk.injEq] at hlabel
  obtain ⟨hne, rfl, rfl⟩ := hlabel
  refine ⟨⟨by simpa using hne, _, rfl⟩, ?_⟩
  rcases chosen_counted hchosen with ⟨rfl, hcount⟩ | ⟨rfl, hcount⟩
  · exact ⟨fun _ => hcount, fun hready => absurd hready (warning_ne_ready _)⟩
  · exact ⟨fun hne => absurd rfl hne, fun _ => hcount⟩

theorem summarize_sound {filter : Text} (colors : Bool)
    (h : ∀ category, (shown lowercase items (lowercase filter) category).length ≤ 1000000) :
    Sound isAlphanumeric (summarize isAlphanumeric lowercase time colors items filter) := by
  have hcounts : ∀ n ∈ (summarize isAlphanumeric lowercase time colors items filter).counts.all,
      n ≤ 1000000 := by
    simpa [summarize, Counts.all] using ⟨h .needsYou, h .working, h .ready, h .parked⟩
  cases hlatest : latestAttention isAlphanumeric lowercase time items (lowercase filter) with
  | none =>
      refine ⟨hcounts, ?_, ?_, ?_, ?_⟩ <;> simp [summarize, hlatest]
  | some found =>
      obtain ⟨label, attention⟩ := found
      obtain ⟨⟨hne, value, rfl⟩, hrequest, hready⟩ := latestAttention_spec hlatest
      refine ⟨hcounts, ?_, ?_, ?_, ?_⟩
      · intro label' hlabel'
        simp only [summarize, hlatest, Option.map_some, Option.some.injEq] at hlabel'
        subst hlabel'
        exact ⟨hne, charsBytes_safeLabel value, safeLabel_safeLabel value⟩
      · simp [summarize, hlatest]
      · intro _
        simpa [summarize, hlatest] using hrequest
      · simpa [summarize, hlatest] using hready

end Summarize

/-! ### Numbers -/

theorem le_ofDigitChars (text : Text) (n : Nat) : n ≤ Nat.ofDigitChars 10 text n := by
  induction text generalizing n with
  | nil => exact Nat.le_refl n
  | cons c text ih =>
      rw [Nat.ofDigitChars_cons]
      exact (by omega : n ≤ 10 * n + (c.toNat - '0'.toNat)).trans (ih _)

theorem parseDigits_eq {text : Text} {n : Nat} (hdigits : ∀ c ∈ text, c.isDigit = true)
    (hlt : Nat.ofDigitChars 10 text n < 2 ^ 64) :
    parseDigits n text = .ok (Nat.ofDigitChars 10 text n) := by
  induction text generalizing n with
  | nil => rfl
  | cons c text ih =>
      rw [List.forall_mem_cons] at hdigits
      rw [Nat.ofDigitChars_cons] at hlt ⊢
      rw [parseDigits, if_pos hdigits.1]
      simp only
      rw [if_pos (Nat.lt_of_le_of_lt (le_ofDigitChars text _) hlt), ih hdigits.2 hlt]

theorem digit_of_mem {n : Nat} {c : Char} (h : c ∈ Nat.toDigits 10 n) : c.isDigit = true :=
  Nat.isDigit_of_mem_toDigits (by decide) (by decide) h

theorem parseUsize_toDigits {n : Nat} (h : n < 2 ^ 64) :
    parseUsize (Nat.toDigits 10 n) = .ok n := by
  have hdigits : ∀ c ∈ Nat.toDigits 10 n, c.isDigit = true := fun c hc => digit_of_mem hc
  have hparse : parseDigits 0 (Nat.toDigits 10 n) = .ok n := by
    rw [parseDigits_eq hdigits (by rwa [Nat.ofDigitChars_ten_toDigits]),
      Nat.ofDigitChars_ten_toDigits]
  cases htext : Nat.toDigits 10 n with
  | nil => exact absurd htext Nat.toDigits_ne_nil
  | cons c text =>
      have hc : c ≠ '+' := by
        rintro rfl
        have hplus := hdigits '+' (htext ▸ List.mem_cons_self)
        exact absurd hplus (by decide)
      rw [htext] at hparse
      rw [parseUsize, if_neg (List.cons_ne_nil _ _), if_neg (by simp [hc])]
      simpa [stripPrefix, Ne.symm hc] using hparse

/-! ### Counts -/

namespace Summary

variable {s : Summary}

/-- The numbers of a frame, separated by commas. -/
def numbers (s : Summary) : List Nat := s.counts.all ++ [s.colors.toNat]

theorem not_mem_toDigits {n : Nat} {c : Char} (hc : c.isDigit = false) : c ∉ Nat.toDigits 10 n := by
  intro hmem
  rw [digit_of_mem hmem] at hc
  cases hc

theorem encode_pieces (s : Summary) :
    (pieces ',' s.encode).1 :: (pieces ',' s.encode).2 = s.numbers.map (Nat.toDigits 10) := by
  have hcomma : ∀ n, ',' ∉ Nat.toDigits 10 n := fun n => not_mem_toDigits rfl
  rw [encode]
  simp only [List.cons_append, List.append_assoc, pieces_cons (hcomma _),
    pieces_of_not_mem (hcomma _)]
  rfl

theorem not_mem_encode (s : Summary) {c : Char} (hc : c.isDigit = false) (hcomma : c ≠ ',') :
    c ∉ s.encode := by
  simp [encode, not_mem_toDigits hc, hcomma]

theorem charsBytes_encode (h : ∀ n ∈ s.counts.all, n ≤ 1000000) : charsBytes s.encode ≤ 40 := by
  have hbytes : ∀ n ≤ 1000000, charsBytes (Nat.toDigits 10 n) ≤ 7 := fun n hn =>
    charsBytes_toDigits_le (by omega) (by decide)
  simp only [Counts.all, List.mem_cons, List.not_mem_nil, or_false, forall_eq_or_imp,
    forall_eq] at h
  obtain ⟨ha, hb, hc, hd⟩ := h
  have hcolors := hbytes s.colors.toNat (by cases s.colors <;> decide)
  have hcomma : ','.utf8Size = 1 := rfl
  simp only [encode, List.cons_append, List.append_assoc, charsBytes_append, charsBytes_cons,
    hcomma]
  have ha := hbytes _ ha
  have hb := hbytes _ hb
  have hc := hbytes _ hc
  have hd := hbytes _ hd
  omega

end Summary

/-! ### Decoding -/

section Decode

variable {isAlphanumeric : Char → Bool} {s : Summary} {label : Text}
  {warning : Option AttentionKind}

/-- A label and a kind that are not at odds with the counts. -/
structure Consistent (counts : Counts) (label : Option Text) (warning : Option AttentionKind) :
    Prop where
  attended : warning.isSome → label.isSome
  request : label.isSome → warning ≠ some .ready → counts.needsYou ≠ 0
  ready : warning = some .ready → counts.ready ≠ 0

theorem mapM_toDigits {ns : List Nat} (h : ∀ n ∈ ns, n < 2 ^ 64) :
    (ns.map (Nat.toDigits 10)).mapM parseUsize = .ok ns := by
  induction ns with
  | nil => rfl
  | cons n ns ih =>
      rw [List.forall_mem_cons] at h
      rw [List.map_cons, List.mapM_cons, parseUsize_toDigits h.1, ih h.2]
      rfl

theorem decodeCounts_encode {label : Option Text} (h : ∀ n ∈ s.counts.all, n ≤ 1000000)
    (hconsistent : Consistent s.counts label warning) :
    decodeCounts s.encode label warning = .ok ⟨s.counts, s.colors, label, warning⟩ := by
  have hsmall : ∀ n ∈ s.numbers, n < 2 ^ 64 := by
    intro n hn
    rcases List.mem_append.mp hn with hn | hn
    · exact Nat.lt_of_le_of_lt (h n hn) (by decide)
    · rw [List.mem_singleton.mp hn]
      cases s.colors <;> decide
  have hbytes : decide (charsBytes s.encode ≤ 40) = true :=
    decide_eq_true (Summary.charsBytes_encode h)
  have hcounts : ([s.counts.needsYou, s.counts.working, s.counts.ready, s.counts.parked].all
      (· ≤ 1000000) && decide (s.colors.toNat ≤ 1)) = true := by
    rw [Bool.and_eq_true]
    refine ⟨List.all_eq_true.mpr fun n hn => decide_eq_true (h n hn), ?_⟩
    cases s.colors <;> rfl
  have hrequest : (!(decide (s.counts.needsYou = 0) && label.isSome &&
      decide (warning ≠ some .ready))) = true := by
    by_cases hready : warning = some .ready
    · simp [hready]
    · cases hlabel : label.isSome with
      | false => simp
      | true => simp [hconsistent.request hlabel hready]
  have hready : (!(decide (warning = some .ready) && decide (s.counts.ready = 0))) = true := by
    by_cases hready : warning = some .ready
    · simp [hconsistent.ready hready]
    · simp [hready]
  have hattended : (!(warning.isSome && label.isNone)) = true := by
    cases hwarning : warning.isSome with
    | false => rfl
    | true =>
        have hlabel := hconsistent.attended hwarning
        cases label with
        | none => cases hlabel
        | some label => rfl
  have hcolors : decide (s.colors.toNat = 1) = s.colors := by cases s.colors <;> rfl
  rw [decodeCounts, Summary.encode_pieces, mapM_toDigits hsmall, hbytes]
  simp only [Summary.numbers, Counts.all, List.cons_append, List.nil_append, ensure_true, ok_bind,
    hcounts, hrequest, hready, hattended, hcolors]
  rfl

theorem stripPrefix_append (start text : Text) : stripPrefix start (start ++ text) = some text := by
  rw [stripPrefix, if_pos (by simp), List.drop_left]

theorem decodeLabelled_eq (h : ∀ n ∈ s.counts.all, n ≤ 1000000)
    (hlabel : safeLabel isAlphanumeric label = label)
    (hconsistent : Consistent s.counts (if label.isEmpty then none else some label) warning) :
    decodeLabelled isAlphanumeric ("v2|".toList ++ s.encode ++ '|' :: label) warning =
      .ok ⟨s.counts, s.colors, if label.isEmpty then none else some label, warning⟩ := by
  have hcut : splitOnce ['|'] (s.encode ++ '|' :: label) = some (s.encode, label) :=
    splitOnce_cons (s.not_mem_encode rfl (by decide))
  rw [List.append_assoc, decodeLabelled, stripPrefix_append]
  simp only [hcut, context_some, ok_bind, hlabel, decide_true, ensure_true]
  exact decodeCounts_encode h hconsistent

theorem unversioned_eq {ready : Bool} {kind : Text} (hkind : '|' ∉ kind)
    (hwarning : kindOf ready kind = .ok warning) :
    unversioned ready (s.encode ++ '|' :: (kind ++ '|' :: label)) =
      .ok ("v2|".toList ++ s.encode ++ '|' :: label, warning) := by
  have hcut : splitOnce ['|'] (s.encode ++ '|' :: (kind ++ '|' :: label)) =
      some (s.encode, kind ++ '|' :: label) :=
    splitOnce_cons (s.not_mem_encode rfl (by decide))
  rw [unversioned]
  simp only [hcut, Option.getD_some, splitOnce_cons hkind, hwarning, ok_bind, context_some]
  rfl

theorem stripPrefix_encode (s : Summary) (start : Text) :
    stripPrefix ('v' :: start) s.encode = none := by
  rw [Summary.encode]
  cases htext : Nat.toDigits 10 s.counts.needsYou with
  | nil => exact absurd htext Nat.toDigits_ne_nil
  | cons c text =>
      have hc : 'v' ≠ c := by
        rintro rfl
        exact Summary.not_mem_toDigits rfl (htext ▸ List.mem_cons_self)
      simp [stripPrefix, hc]

theorem kindText_spec (attention : Option AttentionKind) :
    '|' ∉ Summary.kindText attention ∧ charsBytes (Summary.kindText attention) ≤ 10 ∧
      kindOf true (Summary.kindText attention) = .ok attention ∧
      (attention ≠ some .ready → kindOf false (Summary.kindText attention) = .ok attention) := by
  rcases attention with _ | _ | _ | _ | _ <;> decide

theorem Sound.consistent (h : Sound isAlphanumeric s) :
    Consistent s.counts s.latestAttention s.attention :=
  ⟨h.attended, h.request, h.ready⟩

/-- Nothing is said that would need a count. -/
theorem consistent_none (counts : Counts) : Consistent counts none none :=
  ⟨by simp, by simp, by simp⟩

/-- The label of a frame is that of the summary, when it is read. -/
theorem Sound.label_eq (h : Sound isAlphanumeric s) :
    (if (s.latestAttention.getD []).isEmpty then none else some (s.latestAttention.getD [])) =
      s.latestAttention := by
  cases hlabel : s.latestAttention with
  | none => rfl
  | some label => simp [(h.label label hlabel).1]

theorem Sound.safe (h : Sound isAlphanumeric s) :
    safeLabel isAlphanumeric (s.latestAttention.getD []) = s.latestAttention.getD [] ∧
      charsBytes (s.latestAttention.getD []) ≤ 160 := by
  cases hlabel : s.latestAttention with
  | none => exact ⟨rfl, Nat.zero_le _⟩
  | some label => exact ⟨(h.label label hlabel).2.2, (h.label label hlabel).2.1⟩

/-- The frame of a kind and a label, after the name of its version. -/
def body (s : Summary) (kind : Option AttentionKind) (label : Text) : Text :=
  s.encode ++ '|' :: (Summary.kindText kind ++ '|' :: label)

theorem charsBytes_body (h : Sound isAlphanumeric s) (hlabel : charsBytes label ≤ 160)
    {start : Text} (hstart : charsBytes start = 3) :
    decide (charsBytes (start ++ body s warning label) ≤ maxFrameBytes) = true := by
  have hencode := Summary.charsBytes_encode h.counts
  have hkind := (kindText_spec warning).2.1
  have hbar : '|'.utf8Size = 1 := rfl
  refine decide_eq_true ?_
  simp only [body, charsBytes_append, charsBytes_cons, hbar, hstart, maxFrameBytes]
  omega

theorem decode_v4 (h : Sound isAlphanumeric s) (hlabel : charsBytes label ≤ 160) :
    decode isAlphanumeric ("v4|".toList ++ body s warning label) =
      decodeLabelled isAlphanumeric ("v2|".toList ++ s.encode ++ '|' :: label) warning := by
  obtain ⟨hkind, -, hread, -⟩ := kindText_spec warning
  rw [decode, charsBytes_body h hlabel rfl, stripPrefix_append]
  simp only [ensure_true, ok_bind]
  rw [body, unversioned_eq hkind hread]
  rfl

theorem decode_v3 (h : Sound isAlphanumeric s) (hlabel : charsBytes label ≤ 160)
    (hready : warning ≠ some .ready) :
    decode isAlphanumeric ("v3|".toList ++ body s warning label) =
      decodeLabelled isAlphanumeric ("v2|".toList ++ s.encode ++ '|' :: label) warning := by
  obtain ⟨hkind, -, -, hread⟩ := kindText_spec warning
  have hother : stripPrefix "v4|".toList ("v3|".toList ++ body s warning label) = none := rfl
  rw [decode, charsBytes_body h hlabel rfl, hother, stripPrefix_append]
  simp only [ensure_true, ok_bind]
  rw [body, unversioned_eq hkind (hread hready)]
  rfl

theorem decode_v2 (h : Sound isAlphanumeric s) (hlabel : charsBytes label ≤ 160) :
    decode isAlphanumeric ("v2|".toList ++ s.encode ++ '|' :: label) =
      decodeLabelled isAlphanumeric ("v2|".toList ++ s.encode ++ '|' :: label) none := by
  have hencode := Summary.charsBytes_encode h.counts
  have hsize : decide (charsBytes ("v2|".toList ++ s.encode ++ '|' :: label) ≤ maxFrameBytes) =
      true := by
    have hbar : '|'.utf8Size = 1 := rfl
    have hstart : charsBytes "v2|".toList = 3 := rfl
    refine decide_eq_true ?_
    simp only [charsBytes_append, charsBytes_cons, hbar, hstart, maxFrameBytes]
    omega
  have hlater : ∀ c ≠ '2', stripPrefix ['v', c, '|'] ("v2|".toList ++ s.encode ++ '|' :: label) =
      none := by
    intro c hc
    simp [stripPrefix, hc]
  rw [decode, hsize]
  simp only [ensure_true, ok_bind]
  rw [show "v4|".toList = ['v', '4', '|'] from rfl, hlater '4' (by decide),
    show "v3|".toList = ['v', '3', '|'] from rfl, hlater '3' (by decide)]

theorem decode_v1 (h : ∀ n ∈ s.counts.all, n ≤ 1000000) :
    decode isAlphanumeric s.encode = .ok ⟨s.counts, s.colors, none, none⟩ := by
  have hencode := Summary.charsBytes_encode h
  have hsize : decide (charsBytes s.encode ≤ maxFrameBytes) = true :=
    decide_eq_true (hencode.trans (by decide))
  rw [decode, hsize]
  simp only [ensure_true, ok_bind]
  rw [show "v4|".toList = 'v' :: ['4', '|'] from rfl, stripPrefix_encode,
    show "v3|".toList = 'v' :: ['3', '|'] from rfl, stripPrefix_encode]
  simp only
  rw [decodeLabelled, show "v2|".toList = 'v' :: ['2', '|'] from rfl, stripPrefix_encode]
  exact decodeCounts_encode h (consistent_none s.counts)

/-- A summary with its label. -/
theorem labelled_decoded (h : Sound isAlphanumeric s) :
    decodeLabelled isAlphanumeric ("v2|".toList ++ s.encode ++ '|' :: s.latestAttention.getD [])
      s.attention = .ok s := by
  have hconsistent := h.consistent
  rw [← h.label_eq] at hconsistent
  rw [decodeLabelled_eq h.counts h.safe.1 hconsistent, h.label_eq]

/-- A summary without its label. -/
theorem unlabelled_decoded (h : Sound isAlphanumeric s) :
    decodeLabelled isAlphanumeric ("v2|".toList ++ s.encode ++ ['|']) none =
      .ok { s with latestAttention := none, attention := none } :=
  decodeLabelled_eq h.counts rfl (consistent_none s.counts)

/-- A frame reads as what its version says of the summary. -/
theorem frame_decoded (h : Sound isAlphanumeric s) (version : Version) :
    decode isAlphanumeric (version.frame s) = .ok (version.seen s) := by
  have hlabelled := labelled_decoded h
  cases version with
  | v1 => exact decode_v1 h.counts
  | v2 =>
      by_cases hkind : s.attention = none
      · have hframe : Version.v2.frame s =
            "v2|".toList ++ s.encode ++ '|' :: s.latestAttention.getD [] := by
          simp [Version.frame, Summary.encodeExtended, hkind]
        have hseen : Version.v2.seen s = s := by simp [Version.seen, Version.renders, hkind]
        rw [hframe, hseen, decode_v2 h h.safe.2, ← hkind, hlabelled]
      · have hframe : Version.v2.frame s = "v2|".toList ++ s.encode ++ ['|'] := by
          simp [Version.frame, Summary.encodeExtended, hkind]
        rw [hframe, decode_v2 h (Nat.zero_le _), unlabelled_decoded h]
        simp [Version.seen, Version.renders, hkind]
  | v3 =>
      by_cases hkind : s.attention = some .ready
      · have hframe : Version.v3.frame s = "v3|".toList ++ body s none [] := by
          simp [Version.frame, Summary.encodeAttention, hkind, body, Summary.kindText]
        rw [hframe, decode_v3 h (Nat.zero_le _) (by decide), unlabelled_decoded h]
        simp [Version.seen, Version.renders, hkind]
      · have hframe : Version.v3.frame s =
            "v3|".toList ++ body s s.attention (s.latestAttention.getD []) := by
          simp [Version.frame, Summary.encodeAttention, hkind, body]
        have hseen : Version.v3.seen s = s := by simp [Version.seen, Version.renders, hkind]
        rw [hframe, hseen, decode_v3 h h.safe.2 hkind, hlabelled]
  | v4 =>
      have hframe : Version.v4.frame s =
          "v4|".toList ++ body s s.attention (s.latestAttention.getD []) := by
        simp [Version.frame, Summary.encodeAttentionV4, body]
      rw [hframe, decode_v4 h h.safe.2, hlabelled]
      rfl

end Decode

/-! ### The feed of a board -/

section Feed

variable {τ : Type} [LinearOrder τ] (isAlphanumeric : Char → Bool) (lowercase : Text → Text)
  (time : τ → τ) (colors : Bool) (items : List (BoardItem τ)) (filter : Text)

/-- Each frame of a board is read, and says of the board what its version can say. -/
theorem frames_understood
    (h : ∀ category, (shown lowercase items (lowercase filter) category).length ≤ 1000000) :
    let s := summarize isAlphanumeric lowercase time colors items filter
    (∀ version : Version, decode isAlphanumeric (version.frame s) = .ok (version.seen s) ∧
      (version.seen s).counts = s.counts ∧ (version.seen s).colors = s.colors) ∧
    Version.v4.seen s = s := by
  refine ⟨fun version => ⟨frame_decoded (summarize_sound colors h) version, ?_⟩, rfl⟩
  rw [Version.seen]
  cases version.renders (summarize isAlphanumeric lowercase time colors items filter).attention with
  | true => exact ⟨rfl, rfl⟩
  | false => exact ⟨rfl, rfl⟩

end Feed

/-- A row that is ready, and one with an error. -/
def sampleItems : List (BoardItem Nat) :=
  [{ session := {
      provider := .codex, sessionId := ['a'], name := some "build".toList, status := .ready
      lastEventAt := 1 } },
    { session := {
        provider := .claude, sessionId := ['b'], name := some "tests|#".toList, status := .error
        lastEventAt := 2 }
      nodeName := some "box".toList }]

theorem frames_understood_sample :
    decode Char.isAlphanum "v2|1,0,1,0,1|".toList =
        .ok ⟨⟨1, 0, 1, 0⟩, true, none, none⟩ ∧
      decode Char.isAlphanum "v4|1,0,1,0,1|error|tests @box".toList =
        .ok ⟨⟨1, 0, 1, 0⟩, true, some "tests @box".toList, some .error⟩ := by
  have hall := (frames_understood Char.isAlphanum id id true sampleItems [] (by
    intro category
    cases category <;> decide)).1
  have hsummary : summarize Char.isAlphanum id id true sampleItems [] =
      ⟨⟨1, 0, 1, 0⟩, true, some "tests @box".toList, some .error⟩ := by decide +kernel
  rw [hsummary] at hall
  exact ⟨(hall .v2).1, (hall .v4).1⟩

end Pikamux.Feed
