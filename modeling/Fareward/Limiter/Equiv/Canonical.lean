import Fareward.Limiter.Equiv.CreditsBlob

/-!
# The stored form of a row is canonical

`decode` accepts exactly the byte strings `encode` writes. One direction is `decode_encode`; for
the other an accepted entry is taken apart (`encodeEntry_of_decodeEntry`): its route is above the
last one, it spent something, and since its width is the narrowest, `encodeEntry` writes the same
bytes for it. The loop then rebuilds the whole string entry by entry
(`encodeEntries_of_decodeLoop`).

Besides, `encode` fails exactly on a route past fourteen bits or an amount past thirty-two
(`encode_ok_iff`), and `decode` never indexes past the end of its input (`decodeAt_eq`).
-/

namespace Fareward.Limiter.CreditsBlob

variable {bytes : List UInt8}

/-! ### Numbers from bytes -/

theorem foldl_readUint (bytes : List UInt8) :
    ∀ acc : ℕ, bytes.foldl (fun v byte => v <<< 8 ||| byte.toNat) acc =
      acc * 256 ^ bytes.length + readUint bytes := by
  unfold readUint
  induction bytes with
  | nil => intro acc; simp
  | cons byte bytes ih =>
    intro acc
    rw [List.foldl_cons, List.foldl_cons, ih, ih (0 <<< 8 ||| byte.toNat), shiftLeft_or_byte,
      shiftLeft_or_byte, List.length_cons, pow_succ]
    ring

theorem readUint_cons (byte : UInt8) (bytes : List UInt8) :
    readUint (byte :: bytes) = byte.toNat * 256 ^ bytes.length + readUint bytes := by
  show bytes.foldl _ (0 <<< 8 ||| byte.toNat) = _
  rw [foldl_readUint, shiftLeft_or_byte, Nat.zero_mul, Nat.zero_add]

theorem readUint_lt : ∀ bytes : List UInt8, readUint bytes < 256 ^ bytes.length
  | [] => Nat.one_pos
  | byte :: bytes => by
    have hbyte : byte.toNat + 1 ≤ 256 := byte.toNat_lt
    calc readUint (byte :: bytes)
        = byte.toNat * 256 ^ bytes.length + readUint bytes := readUint_cons byte bytes
      _ < byte.toNat * 256 ^ bytes.length + 256 ^ bytes.length :=
        Nat.add_lt_add_left (readUint_lt bytes) _
      _ = (byte.toNat + 1) * 256 ^ bytes.length := by ring
      _ ≤ 256 * 256 ^ bytes.length := Nat.mul_le_mul_right _ hbyte
      _ = 256 ^ (byte :: bytes).length := by rw [List.length_cons, pow_succ, Nat.mul_comm]

/-- The digits above the width are not written. -/
theorem writeUint_mul_add (a r : ℕ) : ∀ width k : ℕ, width ≤ k →
    writeUint (a * 256 ^ k + r) width = writeUint r width
  | 0, _, _ => rfl
  | width + 1, k, hk => by
    obtain ⟨j, rfl⟩ := Nat.exists_eq_add_of_le hk
    have hpow : 256 ^ (width + 1 + j) = 256 ^ width * (256 * 256 ^ j) := by
      rw [Nat.add_assoc, Nat.pow_add, Nat.pow_add, pow_one]
    have hdigit : UInt8.ofNat ((a * 256 ^ (width + 1 + j) + r) >>> (8 * width)) =
        UInt8.ofNat (r >>> (8 * width)) := by
      apply UInt8.toNat_inj.mp
      rw [UInt8.toNat_ofNat', UInt8.toNat_ofNat', Nat.shiftRight_eq_div_pow,
        Nat.shiftRight_eq_div_pow, Nat.pow_mul, hpow,
        show a * (256 ^ width * (256 * 256 ^ j)) + r =
          r + (2 ^ 8) ^ width * (256 * (a * 256 ^ j)) by ring,
        Nat.add_mul_div_left _ _ (Nat.pow_pos (by decide))]
      exact Nat.add_mul_mod_self_left _ _ _
    rw [writeUint, writeUint, hdigit, writeUint_mul_add a r width _ (by omega)]

theorem writeUint_readUint : ∀ bytes : List UInt8, writeUint (readUint bytes) bytes.length = bytes
  | [] => rfl
  | byte :: bytes => by
    have hlt := readUint_lt bytes
    have hdigit : UInt8.ofNat (readUint (byte :: bytes) >>> (8 * bytes.length)) = byte := by
      apply UInt8.toNat_inj.mp
      rw [UInt8.toNat_ofNat', Nat.shiftRight_eq_div_pow, Nat.pow_mul, readUint_cons,
        Nat.add_comm, Nat.add_mul_div_right _ _ (Nat.pow_pos (by decide)),
        Nat.div_eq_of_lt hlt, Nat.zero_add]
      exact Nat.mod_eq_of_lt byte.toNat_lt
    rw [List.length_cons, writeUint, hdigit, readUint_cons, writeUint_mul_add _ _ _ _ le_rfl,
      writeUint_readUint bytes]

theorem writeUint_take {width : ℕ} (h : width ≤ bytes.length) :
    writeUint (readUint (bytes.take width)) width = bytes.take width := by
  have hwrite := writeUint_readUint (bytes.take width)
  rwa [List.length_take_of_le h] at hwrite

/-! ### When `encode` succeeds -/

theorem widthFor_ok_iff (value : ℕ) : (∃ width, widthFor value = .ok width) ↔ value < 2 ^ 32 := by
  unfold widthFor
  split_ifs with h1 h2 h3 h4
  · exact ⟨fun _ => by omega, fun _ => ⟨1, rfl⟩⟩
  · exact ⟨fun _ => by omega, fun _ => ⟨2, rfl⟩⟩
  · exact ⟨fun _ => by omega, fun _ => ⟨3, rfl⟩⟩
  · exact ⟨fun _ => by omega, fun _ => ⟨4, rfl⟩⟩
  · exact ⟨fun ⟨_, h⟩ => (by cases h), fun h => absurd h (by omega)⟩

/-- An entry the format has room for. -/
def Fits (e : ℕ × Credits) : Prop :=
  e.1 ≤ maxRouteId ∧ e.2.cpu < 2 ^ 32 ∧ e.2.inference < 2 ^ 32

theorem encodeEntry_ok_iff (route : ℕ) (credits : Credits) :
    (∃ bytes, encodeEntry route credits = .ok bytes) ↔ Fits (route, credits) := by
  have hmax : max credits.cpu credits.inference < 2 ^ 32 ↔
      credits.cpu < 2 ^ 32 ∧ credits.inference < 2 ^ 32 := max_lt_iff
  unfold encodeEntry Fits
  split_ifs with hroute hzero
  · exact ⟨fun ⟨_, h⟩ => (by cases h), fun h => absurd h.1 (not_le.mpr hroute)⟩
  · exact ⟨fun _ => ⟨not_lt.mp hroute, by rw [hzero.1]; norm_num, by rw [hzero.2]; norm_num⟩,
      fun _ => ⟨[], rfl⟩⟩
  · rw [← hmax, ← widthFor_ok_iff]
    cases widthFor (max credits.cpu credits.inference) with
    | error => exact ⟨fun ⟨_, h⟩ => (by cases h), fun ⟨_, _, h⟩ => (by cases h)⟩
    | ok width => exact ⟨fun _ => ⟨not_lt.mp hroute, width, rfl⟩, fun _ => ⟨_, rfl⟩⟩

theorem encodeEntries_ok_iff (es : List (ℕ × Credits)) :
    (∃ bytes, encodeEntries es = .ok bytes) ↔ ∀ e ∈ es, Fits e := by
  induction es with
  | nil => exact ⟨fun _ e he => absurd he List.not_mem_nil, fun _ => ⟨[], rfl⟩⟩
  | cons e es ih =>
    rw [List.forall_mem_cons, ← ih, ← encodeEntry_ok_iff, encodeEntries]
    cases encodeEntry e.1 e.2 with
    | error => exact ⟨fun ⟨_, h⟩ => (by cases h), fun ⟨⟨_, h⟩, _⟩ => (by cases h)⟩
    | ok =>
      cases encodeEntries es with
      | error => exact ⟨fun ⟨_, h⟩ => (by cases h), fun ⟨_, _, h⟩ => (by cases h)⟩
      | ok => exact ⟨fun _ => ⟨⟨_, rfl⟩, _, rfl⟩, fun _ => ⟨_, rfl⟩⟩

theorem encode_ok_iff (routes : RoutedCredits) :
    (∃ bytes, encode routes = .ok bytes) ↔ ∀ e ∈ routes.entries, Fits e :=
  encodeEntries_ok_iff routes.entries

/-! ### What `decode` accepts -/

/-- An accepted entry is what `encodeEntry` writes for it. -/
theorem encodeEntry_of_decodeEntry {previous : Option ℕ} {rest : List UInt8} {route : ℕ}
    {credits : Credits} (h : decodeEntry previous bytes = .ok (route, credits, rest)) :
    ∃ entry, encodeEntry route credits = .ok entry ∧ bytes = entry ++ rest ∧ entry ≠ [] ∧
      ∀ p ∈ previous, p < route := by
  unfold decodeEntry at h
  split_ifs at h with hshort
  dsimp only at h
  set header := readUint (bytes.take 2) with hheader
  set body := bytes.drop 2 with hbody
  split_ifs at h with horder hbodyshort hzero
  cases hw : widthFor (max (readUint (body.take (header % 4 + 1)))
      (readUint ((body.drop (header % 4 + 1)).take (header % 4 + 1)))) with
  | error e => rw [hw] at h; cases h
  | ok narrowest =>
    rw [hw] at h
    change (if narrowest ≠ header % 4 + 1 then Except.error _ else _) = _ at h
    split_ifs at h with hwidth
    injection h with h
    injection h with hroute h
    injection h with hcredits hrest
    have hwidth : narrowest = header % 4 + 1 := not_not.mp hwidth
    have hlen : 2 ≤ bytes.length := not_lt.mp hshort
    have hlt : header < 256 ^ 2 := by
      have := readUint_lt (bytes.take 2)
      rwa [List.length_take_of_le hlen] at this
    rw [Nat.shiftRight_eq_div_pow] at hroute
    have hbodylen : (header % 4 + 1) * 2 ≤ body.length := not_lt.mp hbodyshort
    -- the header, the two amounts and the rest are consecutive pieces of the bytes
    have hhead : writeUint (route <<< 2 ||| (narrowest - 1)) 2 = bytes.take 2 := by
      have hvalue : (route <<< 2 ||| (narrowest - 1)) = header := by
        rw [(header_lt (by unfold maxRouteId; omega) (by omega)).1]
        omega
      rw [hvalue, hheader, writeUint_take hlen]
    have hcpu : writeUint credits.cpu narrowest = body.take narrowest := by
      rw [← hcredits, hwidth]
      exact writeUint_take (by omega)
    have hinference : writeUint credits.inference narrowest =
        (body.drop narrowest).take narrowest := by
      rw [← hcredits, hwidth]
      exact writeUint_take (by rw [List.length_drop]; omega)
    refine ⟨writeUint (route <<< 2 ||| (narrowest - 1)) 2 ++
      (writeUint credits.cpu narrowest ++ writeUint credits.inference narrowest), ?_, ?_, ?_, ?_⟩
    · unfold encodeEntry
      rw [if_neg (by unfold maxRouteId; omega), ← hcredits, if_neg hzero, hw]
      rfl
    · rw [hhead, hcpu, hinference, ← hrest, ← hwidth, List.append_assoc, List.append_assoc,
        List.take_append_drop, List.take_append_drop, hbody, List.take_append_drop]
    · intro hnil
      have := congrArg List.length hnil
      simp [length_writeUint] at this
    · intro p hp
      obtain rfl := Option.mem_def.mp hp
      rw [← hroute, ← Nat.shiftRight_eq_div_pow]
      simpa using horder

/-- What the loop accepts is what `encodeEntries` writes for the entries it appended. -/
theorem encodeEntries_of_decodeLoop :
    ∀ (fuel : ℕ) {bytes : List UInt8} {previous : Option ℕ} {routes routes' : RoutedCredits},
      decodeLoop fuel bytes previous routes = .ok routes' → bytes.length ≤ fuel →
      (∀ e ∈ routes.entries, ∃ p ∈ previous, e.1 ≤ p) →
      ∃ es, routes'.entries = routes.entries ++ es ∧ encodeEntries es = .ok bytes
  | 0, bytes, _, routes, routes', h, hfuel, _ => by
    obtain rfl : bytes = [] := List.length_eq_zero_iff.mp (Nat.le_zero.mp hfuel)
    obtain rfl := Except.ok.inj h
    exact ⟨[], (List.append_nil _).symm, rfl⟩
  | fuel + 1, [], _, routes, routes', h, _, _ => by
    obtain rfl := Except.ok.inj h
    exact ⟨[], (List.append_nil _).symm, rfl⟩
  | fuel + 1, byte :: bytes, previous, routes, routes', h, hfuel, hroutes => by
    rw [decodeLoop] at h
    cases hentry : decodeEntry previous (byte :: bytes) with
    | error => rw [hentry] at h; cases h
    | ok found =>
      obtain ⟨route, credits, rest⟩ := found
      rw [hentry] at h
      obtain ⟨entry, hencode, hbytes, hne, hprev⟩ := encodeEntry_of_decodeEntry hentry
      have hbelow : ∀ e ∈ routes.entries, e.1 < route := by
        intro e he
        obtain ⟨p, hp, hle⟩ := hroutes e he
        exact hle.trans_lt (hprev p hp)
      have hins : (routes.insert route credits).entries = routes.entries ++ [(route, credits)] :=
        insertEntry_append credits hbelow
      have hlen : rest.length ≤ fuel := by
        have hsum := congrArg List.length hbytes
        have hpos := List.length_pos_iff.mpr hne
        rw [List.length_append] at hsum
        omega
      obtain ⟨es, hes, hrest⟩ := encodeEntries_of_decodeLoop fuel h hlen (by
        intro e he
        rw [hins] at he
        refine ⟨route, rfl, ?_⟩
        rcases List.mem_append.mp he with he | he
        · exact (hbelow e he).le
        · rw [List.mem_singleton.mp he])
      refine ⟨(route, credits) :: es, ?_, ?_⟩
      · rw [hes, hins, List.append_assoc]
        rfl
      · rw [encodeEntries, hencode, hrest, hbytes]
        rfl

/-- **What `decode` accepts is what `encode` writes** for the map it returns. -/
theorem encode_decode {routes : RoutedCredits} (h : decode bytes = .ok routes) :
    encode routes = .ok bytes := by
  obtain ⟨es, hes, hencode⟩ := encodeEntries_of_decodeLoop bytes.length h le_rfl
    (fun e he => absurd he List.not_mem_nil)
  unfold encode
  rw [hes]
  exact hencode

/-! ### The offset stays inside -/

theorem slice_eq {start stop : ℕ} (h : start ≤ stop) (hlen : stop ≤ bytes.length) :
    slice bytes start stop = some ((bytes.drop start).take (stop - start)) :=
  if_pos ⟨h, hlen⟩

theorem take_two_drop {offset : ℕ} (h : offset + 2 ≤ bytes.length) :
    ∃ high low, bytes[offset]? = some high ∧ bytes[offset + 1]? = some low ∧
      (bytes.drop offset).take 2 = [high, low] := by
  have h0 : offset < bytes.length := by omega
  have h1 : offset + 1 < bytes.length := by omega
  refine ⟨bytes[offset], bytes[offset + 1], List.getElem?_eq_getElem h0,
    List.getElem?_eq_getElem h1, ?_⟩
  rw [List.drop_eq_getElem_cons h0, List.drop_eq_getElem_cons h1]
  rfl

/-- A turn at an offset is the turn on what is left there, and panics nowhere. -/
theorem decodeEntryAt_spec (encoded : List UInt8) (offset : ℕ) (previous : Option ℕ) :
    match decodeEntry previous (encoded.drop offset) with
    | .error e => decodeEntryAt encoded offset previous = some (.error e)
    | .ok (route, credits, rest) => ∃ next, rest = encoded.drop next ∧
        decodeEntryAt encoded offset previous = some (.ok (route, credits, next)) := by
  unfold decodeEntry decodeEntryAt
  rw [List.length_drop]
  by_cases hshort : encoded.length - offset < 2
  · rw [if_pos hshort, if_pos hshort]
  · obtain ⟨high, low, hhigh, hlow, htake⟩ := take_two_drop (by omega : offset + 2 ≤ encoded.length)
    rw [if_neg hshort, if_neg hshort, hhigh, hlow, htake]
    simp only [Option.bind_eq_bind, Option.bind_some, List.drop_drop, List.length_drop]
    set header := readUint [high, low]
    set width := header % 4 + 1
    by_cases horder : previous.any (fun p => decide (header >>> 2 ≤ p))
    · rw [if_pos horder, if_pos horder]
    rw [if_neg horder, if_neg horder]
    by_cases hbody : encoded.length - (offset + 2) < width * 2
    · rw [if_pos hbody, if_pos hbody]
    rw [if_neg hbody, if_neg hbody, slice_eq (by omega) (by omega), slice_eq (by omega) (by omega),
      Nat.add_sub_cancel_left, Nat.add_sub_cancel_left]
    simp only [Option.map_some, Option.bind_some]
    set cpu := readUint ((encoded.drop (offset + 2)).take width)
    set inference := readUint ((encoded.drop (offset + 2 + width)).take width)
    by_cases hzero : cpu = 0 ∧ inference = 0
    · rw [if_pos hzero, if_pos hzero]
    rw [if_neg hzero, if_neg hzero]
    cases widthFor (max cpu inference) with
    | error => rfl
    | ok narrowest =>
      rw [show (Except.ok narrowest >>= fun n => if n ≠ width then _ else _) =
        if narrowest ≠ width then _ else _ from rfl]
      dsimp only
      by_cases hwidth : narrowest ≠ width
      · rw [if_pos hwidth, if_pos hwidth]
      · rw [if_neg hwidth, if_neg hwidth]
        exact ⟨_, rfl, rfl⟩

theorem decodeLoopAt_eq (encoded : List UInt8) :
    ∀ (fuel offset : ℕ) (previous : Option ℕ) (routes : RoutedCredits),
      decodeLoopAt encoded fuel offset previous routes =
        some (decodeLoop fuel (encoded.drop offset) previous routes)
  | 0, _, _, _ => rfl
  | fuel + 1, offset, previous, routes => by
    rw [decodeLoopAt]
    split_ifs with hoffset
    · have hpos : 0 < (encoded.drop offset).length := by rw [List.length_drop]; omega
      obtain ⟨byte, bytes, hbytes⟩ := List.exists_cons_of_length_pos hpos
      have hturn := decodeEntryAt_spec encoded offset previous
      rw [hbytes] at hturn ⊢
      rw [decodeLoop]
      cases hentry : decodeEntry previous (byte :: bytes) with
      | error =>
        rw [hentry] at hturn
        rw [show decodeEntryAt encoded offset previous = _ from hturn]
        rfl
      | ok found =>
        obtain ⟨route, credits, rest⟩ := found
        rw [hentry] at hturn
        obtain ⟨next, rfl, hturn⟩ := hturn
        rw [hturn]
        exact decodeLoopAt_eq encoded fuel next (some route) (routes.insert route credits)
    · rw [List.drop_eq_nil_of_le (not_lt.mp hoffset)]
      rfl

/-- `decode` never indexes past the end of its input. -/
theorem decodeAt_eq (encoded : List UInt8) : decodeAt encoded = some (decode encoded) := by
  unfold decodeAt decode
  rw [decodeLoopAt_eq, List.drop_zero]

/-! ### The codec -/

/-- **The stored form is canonical.** A map is written exactly when each of its routes fits
fourteen bits and each amount thirty-two, and then reads back without its all-zero routes; what is
read back is written as the same bytes, so the accepted strings are those that are written; and no
input is read past its end. -/
theorem credits_blob_canonical :
    (∀ routes : RoutedCredits, (∃ bytes, encode routes = .ok bytes) ↔
        ∀ e ∈ routes.entries, e.1 ≤ maxRouteId ∧ e.2.cpu < 2 ^ 32 ∧ e.2.inference < 2 ^ 32) ∧
      (∀ (routes : RoutedCredits) (bytes : List UInt8), encode routes = .ok bytes →
        ∃ routes' : RoutedCredits, decode bytes = .ok routes' ∧
          routes'.entries =
            routes.entries.filter fun e => ¬(e.2.cpu = 0 ∧ e.2.inference = 0)) ∧
      (∀ (bytes : List UInt8) (routes : RoutedCredits), decode bytes = .ok routes →
        encode routes = .ok bytes) ∧
      (∀ bytes : List UInt8, (∃ routes, decode bytes = .ok routes) ↔
        ∃ routes, encode routes = .ok bytes) ∧
      ∀ bytes : List UInt8, decodeAt bytes = some (decode bytes) := by
  refine ⟨encode_ok_iff, fun _ _ h => decode_encode h, fun _ _ h => encode_decode h,
    fun bytes => ⟨?_, ?_⟩, decodeAt_eq⟩
  · rintro ⟨routes, h⟩
    exact ⟨routes, encode_decode h⟩
  · rintro ⟨routes, h⟩
    obtain ⟨routes', hdecode, _⟩ := decode_encode h
    exact ⟨routes', hdecode⟩

end Fareward.Limiter.CreditsBlob
