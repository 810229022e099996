import Fareward.Limiter.CreditsBlob
import Mathlib.Tactic.Ring

/-!
# The stored form gives the totals back

`decode_encode`: what `encode` writes, `decode` reads as the same map without its all-zero routes.
So the total of every route, and the sum over the routes, survive storage.
-/

namespace Fareward.Limiter

variable {a b c : Credits} {value width route : ℕ} {bytes : List UInt8} {routes : RoutedCredits}

namespace Credits

@[simp] theorem of_zero (d : Resource) : Credits.zero.of d = 0 := by cases d <;> rfl

/-- The sum in both dimensions. -/
def add (a b : Credits) : Credits := ⟨a.cpu + b.cpu, a.inference + b.inference⟩

@[simp] theorem of_add (a b : Credits) (d : Resource) : (a.add b).of d = a.of d + b.of d := by
  cases d <;> rfl

theorem checkedAdd_eq_some :
    a.checkedAdd b = some c ↔
      (a.cpu + b.cpu ≤ u64Max ∧ a.inference + b.inference ≤ u64Max) ∧
        c = a.add b := by
  unfold checkedAdd checkedU64 add
  by_cases hcpu : a.cpu + b.cpu ≤ u64Max
  · by_cases hinference : a.inference + b.inference ≤ u64Max
    · simp [hcpu, hinference, eq_comm]
    · simp [hcpu, hinference]
  · simp [hcpu]

theorem of_checkedAdd (h : a.checkedAdd b = some c) (d : Resource) : c.of d = a.of d + b.of d := by
  obtain ⟨-, rfl⟩ := checkedAdd_eq_some.mp h
  exact of_add a b d

theorem checkedAdd_of_le (h : ∀ d, a.of d + b.of d ≤ u64Max) :
    a.checkedAdd b = some (a.add b) :=
  checkedAdd_eq_some.mpr ⟨⟨h .cpu, h .inference⟩, rfl⟩

end Credits

/-- The total of a route in one dimension; a route that is not there has spent nothing. -/
def RoutedCredits.total (routes : RoutedCredits) (route : ℕ) (d : Resource) : ℕ :=
  ((routes.get? route).getD .zero).of d

/-- The sum over the routes in one dimension. -/
def RoutedCredits.sumOf (routes : RoutedCredits) (d : Resource) : ℕ :=
  SortedMap.sumOf (·.of d) routes

namespace RoutedCredits

@[simp] theorem total_empty (route : ℕ) (d : Resource) : total ∅ route d = 0 := by
  simp [total]

theorem total_insert (routes : RoutedCredits) (route : ℕ) (credits : Credits) (r : ℕ)
    (d : Resource) :
    total (routes.insert route credits) r d =
      if route = r then credits.of d else total routes r d := by
  unfold total
  rw [SortedMap.get?_insert]
  split_ifs <;> rfl

end RoutedCredits

namespace CreditsBlob

/-! ### Big-endian numbers -/

theorem shiftLeft_or_byte (value : ℕ) (byte : UInt8) :
    value <<< 8 ||| byte.toNat = value * 256 + byte.toNat := by
  rw [← Nat.shiftLeft_add_eq_or_of_lt byte.toNat_lt, Nat.shiftLeft_eq]

theorem length_writeUint (value : ℕ) : ∀ width, (writeUint value width).length = width
  | 0 => rfl
  | width + 1 => by rw [writeUint, List.length_cons, length_writeUint value width]

theorem foldl_writeUint (value : ℕ) :
    ∀ (width acc : ℕ), (writeUint value width).foldl (fun v byte => v <<< 8 ||| byte.toNat) acc =
      acc * 256 ^ width + value % 256 ^ width
  | 0, acc => by simp [writeUint, Nat.mod_one]
  | width + 1, acc => by
    have hbyte : (UInt8.ofNat (value >>> (8 * width))).toNat = value / 256 ^ width % 256 := by
      rw [UInt8.toNat_ofNat', Nat.shiftRight_eq_div_pow, Nat.pow_mul]
    have hmod : value % 256 ^ (width + 1) =
        value % 256 ^ width + 256 ^ width * (value / 256 ^ width % 256) := by
      rw [Nat.pow_succ, Nat.mod_mul]
    rw [writeUint, List.foldl_cons, shiftLeft_or_byte, hbyte, foldl_writeUint value width, hmod]
    ring

theorem readUint_writeUint (h : value < 256 ^ width) :
    readUint (writeUint value width) = value := by
  unfold readUint
  rw [foldl_writeUint, Nat.zero_mul, Nat.zero_add, Nat.mod_eq_of_lt h]

theorem widthFor_spec (h : widthFor value = .ok width) :
    1 ≤ width ∧ width ≤ 4 ∧ value < 256 ^ width := by
  unfold widthFor at h
  split_ifs at h with h1 h2 h3 h4 <;> injection h with h <;> subst h <;> omega

theorem header_lt (hroute : route ≤ maxRouteId) (hwidth : width ≤ 4) :
    (route <<< 2 ||| (width - 1)) = route * 4 + (width - 1) ∧
      route * 4 + (width - 1) < 256 ^ 2 := by
  unfold maxRouteId at hroute
  have hcode : width - 1 < 2 ^ 2 := by omega
  rw [← Nat.shiftLeft_add_eq_or_of_lt hcode, Nat.shiftLeft_eq]
  omega

/-! ### One entry -/

/-- An entry that spent something. -/
def Spent (e : ℕ × Credits) : Prop := ¬(e.2.cpu = 0 ∧ e.2.inference = 0)

instance (e : ℕ × Credits) : Decidable (Spent e) := inferInstanceAs (Decidable (¬_))

/-- What `encodeEntry` writes for a route that spent something is read back as the entry. -/
theorem decodeEntry_encodeEntry {credits : Credits} {previous : Option ℕ} (rest : List UInt8)
    (hspent : Spent (route, credits)) (h : encodeEntry route credits = .ok bytes)
    (hprev : ∀ p ∈ previous, p < route) :
    decodeEntry previous (bytes ++ rest) = .ok (route, credits, rest) ∧ bytes ≠ [] := by
  unfold encodeEntry at h
  split_ifs at h with hmax hzero
  · exact absurd hzero hspent
  cases hw : widthFor (max credits.cpu credits.inference) with
  | error => rw [hw] at h; cases h
  | ok width =>
    rw [hw] at h
    injection h with h
    subst h
    obtain ⟨hw1, hw4, hlt⟩ := widthFor_spec hw
    obtain ⟨hheader, hheaderlt⟩ := header_lt (not_lt.mp hmax) hw4
    have hcpu : credits.cpu < 256 ^ width := lt_of_le_of_lt (le_max_left _ _) hlt
    have hinference : credits.inference < 256 ^ width := lt_of_le_of_lt (le_max_right _ _) hlt
    have hlen2 := length_writeUint (route <<< 2 ||| (width - 1)) 2
    have hlenc := length_writeUint credits.cpu width
    have hleni := length_writeUint credits.inference width
    have hany : previous.any (fun p => decide (route ≤ p)) = false := by
      cases previous with
      | none => rfl
      | some p => simpa using hprev p rfl
    constructor
    · unfold decodeEntry
      rw [if_neg (by simp only [List.length_append, hlen2]; omega)]
      have htake : ((writeUint (route <<< 2 ||| (width - 1)) 2 ++ (writeUint credits.cpu width ++
          writeUint credits.inference width)) ++ rest).take 2 =
          writeUint (route <<< 2 ||| (width - 1)) 2 := by
        rw [List.append_assoc, List.take_left' hlen2]
      have hdrop : ((writeUint (route <<< 2 ||| (width - 1)) 2 ++ (writeUint credits.cpu width ++
          writeUint credits.inference width)) ++ rest).drop 2 =
          writeUint credits.cpu width ++ (writeUint credits.inference width ++ rest) := by
        rw [List.append_assoc, List.drop_left' hlen2, List.append_assoc]
      have hread : readUint (writeUint (route <<< 2 ||| (width - 1)) 2) =
          route * 4 + (width - 1) := by
        rw [readUint_writeUint (hheader ▸ hheaderlt), hheader]
      have hroute : (route * 4 + (width - 1)) >>> 2 = route := by
        rw [Nat.shiftRight_eq_div_pow]; omega
      have hwidth : (route * 4 + (width - 1)) % 4 + 1 = width := by omega
      simp only [htake, hdrop, hread, hroute, hwidth]
      rw [hany, if_neg (by simp), if_neg (by simp [hlenc, hleni]; omega),
        List.take_left' hlenc, List.drop_left' hlenc, List.take_left' hleni,
        List.drop_left' hleni, readUint_writeUint hcpu, readUint_writeUint hinference, hw]
      rw [if_neg hzero]
      show (if width ≠ width then _ else _) = _
      rw [if_neg (not_not.mpr rfl)]
      rfl
    · intro hnil
      have := congrArg List.length hnil
      simp [hlen2] at this

/-! ### The whole map -/

theorem insertEntry_append (credits : Credits) :
    ∀ {es : List (ℕ × Credits)}, (∀ e ∈ es, e.1 < route) →
      SortedMap.insertEntry route credits es = es ++ [(route, credits)]
  | [], _ => rfl
  | e :: es, h => by
    have he := h e List.mem_cons_self
    rw [SortedMap.insertEntry, if_neg he.not_gt, if_neg he.ne',
      insertEntry_append credits fun d hd => h d (List.mem_cons_of_mem _ hd)]
    rfl

/-- The loop over what `encodeEntries` wrote. The entries ascend and lie above everything read so
far, so each is appended to the map. -/
theorem decodeLoop_encodeEntries :
    ∀ {es : List (ℕ × Credits)} {bytes : List UInt8} (fuel : ℕ) (previous : Option ℕ)
      (routes : RoutedCredits), encodeEntries es = .ok bytes →
      es.Pairwise (fun a b => a.1 < b.1) → (∀ p ∈ previous, ∀ e ∈ es, p < e.1) →
      (∀ r ∈ routes.entries, ∀ e ∈ es, r.1 < e.1) → bytes.length ≤ fuel →
      ∃ routes', decodeLoop fuel bytes previous routes = .ok routes' ∧
        routes'.entries = routes.entries ++ es.filter fun e => Spent e
  | [], bytes, fuel, previous, routes, h, _, _, _, _ => by
    injection h with h
    subst h
    refine ⟨routes, ?_, by simp⟩
    cases fuel <;> rfl
  | e :: es, bytes, fuel, previous, routes, h, hsorted, hprev, hroutes, hfuel => by
    obtain ⟨hlt, hsorted⟩ := List.pairwise_cons.mp hsorted
    unfold encodeEntries at h
    cases he : encodeEntry e.1 e.2 with
    | error => rw [he] at h; cases h
    | ok entry =>
      rw [he] at h
      cases hrest : encodeEntries es with
      | error => rw [hrest] at h; cases h
      | ok rest =>
        rw [hrest] at h
        injection h with h
        subst h
        rw [List.length_append] at hfuel
        by_cases hspent : Spent e
        · -- the entry is read back and appended
          obtain ⟨hdecode, hne⟩ := decodeEntry_encodeEntry rest hspent he
            (fun p hp => hprev p hp e List.mem_cons_self)
          have hins := insertEntry_append e.2
            (fun r hr => hroutes r hr e List.mem_cons_self)
          obtain ⟨byte, tail, htail⟩ := List.exists_cons_of_ne_nil hne
          obtain ⟨fuel, rfl⟩ : ∃ k, fuel = k + 1 := by
            rw [htail, List.length_cons] at hfuel
            exact ⟨fuel - 1, by omega⟩
          obtain ⟨routes', hloop, hentries⟩ := decodeLoop_encodeEntries fuel
            (some e.1) (routes.insert e.1 e.2) hrest hsorted
            (fun p hp d hd => by
              cases hp
              exact hlt d hd)
            (fun r hr d hd => by
              have hr : r ∈ SortedMap.insertEntry e.1 e.2 routes.entries := hr
              rw [hins] at hr
              rcases List.mem_append.mp hr with hr | hr
              · exact hroutes r hr d (List.mem_cons_of_mem _ hd)
              · obtain rfl := List.mem_singleton.mp hr
                exact hlt d hd)
            (by rw [htail, List.length_cons] at hfuel; omega)
          refine ⟨routes', ?_, ?_⟩
          · rw [htail] at hdecode ⊢
            show (decodeEntry previous (byte :: tail ++ rest) >>= _) = _
            rw [hdecode]
            exact hloop
          · have hfilter : (e :: es).filter (fun e => Spent e) = e :: es.filter fun e => Spent e :=
              List.filter_cons_of_pos (by simpa using hspent)
            rw [hentries, hfilter]
            show SortedMap.insertEntry e.1 e.2 routes.entries ++ _ = _
            rw [hins, List.append_assoc]
            rfl
        · -- nothing was written for the entry
          have hnil : entry = [] := by
            unfold encodeEntry at he
            split_ifs at he with hmax hzero
            · injection he with he
              exact he.symm
            · exact absurd hzero hspent
          have hfilter : (e :: es).filter (fun e => Spent e) = es.filter fun e => Spent e :=
            List.filter_cons_of_neg (by simpa using hspent)
          subst hnil
          rw [hfilter]
          exact decodeLoop_encodeEntries fuel previous routes hrest hsorted
            (fun p hp d hd => hprev p hp d (List.mem_cons_of_mem _ hd))
            (fun r hr d hd => hroutes r hr d (List.mem_cons_of_mem _ hd)) (by simpa using hfuel)

/-- **The stored form gives the map back**, without its all-zero routes. -/
theorem decode_encode (h : encode routes = .ok bytes) :
    ∃ routes', decode bytes = .ok routes' ∧
      routes'.entries = routes.entries.filter fun e => Spent e := by
  obtain ⟨routes', hloop, hentries⟩ := decodeLoop_encodeEntries bytes.length none ∅ h
    routes.sorted (fun _ hp => by cases hp) (fun _ hr => by cases hr) le_rfl
  exact ⟨routes', hloop, hentries⟩

theorem of_eq_zero_of_not_spent {e : ℕ × Credits} (h : ¬Spent e) (d : Resource) :
    e.2.of d = 0 := by
  obtain ⟨hcpu, hinference⟩ := not_not.mp h
  cases d
  · exact hcpu
  · exact hinference

theorem find_filter_spent (route : ℕ) (d : Resource) :
    ∀ {es : List (ℕ × Credits)}, es.Pairwise (fun a b => a.1 < b.1) →
      ((SortedMap.find route (es.filter fun e => Spent e)).getD .zero).of d =
        ((SortedMap.find route es).getD .zero).of d
  | [], _ => rfl
  | e :: es, h => by
    obtain ⟨hlt, hes⟩ := List.pairwise_cons.mp h
    have ih := find_filter_spent route d hes
    by_cases hspent : Spent e
    · rw [List.filter_cons_of_pos (by simpa using hspent), SortedMap.find, SortedMap.find]
      split_ifs
      · rfl
      · exact ih
    · rw [List.filter_cons_of_neg (by simpa using hspent), ih, SortedMap.find]
      split_ifs with heq
      · -- the route was dropped, and it does not come again
        have hnone : SortedMap.find route es = none := by
          apply SortedMap.find_eq_none
          intro f hf
          exact (heq ▸ hlt f hf).ne'
        rw [hnone]
        exact (Credits.of_zero d).trans (of_eq_zero_of_not_spent hspent d).symm
      · rfl

theorem sum_filter_spent (d : Resource) :
    ∀ es : List (ℕ × Credits),
      ((es.filter fun e => Spent e).map fun e => e.2.of d).sum = (es.map fun e => e.2.of d).sum
  | [] => rfl
  | e :: es => by
    have ih := sum_filter_spent d es
    by_cases hspent : Spent e
    · rw [List.filter_cons_of_pos (by simpa using hspent), List.map_cons, List.map_cons,
        List.sum_cons, List.sum_cons, ih]
    · rw [List.filter_cons_of_neg (by simpa using hspent), ih, List.map_cons, List.sum_cons,
        of_eq_zero_of_not_spent hspent, Nat.zero_add]

/-- The totals and the sums of what is read back are those of what was written. -/
theorem total_decode_encode (h : encode routes = .ok bytes) :
    ∃ routes' : RoutedCredits, decode bytes = .ok routes' ∧
      (∀ route d, routes'.total route d = routes.total route d) ∧
      ∀ d, routes'.sumOf d = routes.sumOf d := by
  obtain ⟨routes', hdecode, hentries⟩ := decode_encode h
  refine ⟨routes', hdecode, fun route d => ?_, fun d => ?_⟩
  · unfold RoutedCredits.total SortedMap.get?
    rw [hentries]
    exact find_filter_spent route d routes.sorted
  · unfold RoutedCredits.sumOf SortedMap.sumOf
    rw [hentries]
    exact sum_filter_spent d routes.entries

/-! ### Sums -/

theorem foldlM_addEntry {es : List (ℕ × Credits)} :
    ∀ {total result : Credits}, es.foldlM addEntry total = .ok result →
      ∀ d, result.of d = total.of d + (es.map fun e => e.2.of d).sum := by
  induction es with
  | nil =>
    intro total result h d
    injection h with h
    subst h
    simp
  | cons e es ih =>
    intro total result h d
    rw [List.foldlM_cons] at h
    cases he : addEntry total e with
    | error => rw [he] at h; cases h
    | ok next =>
      rw [he] at h
      have hnext : total.checkedAdd e.2 = some next := by
        unfold addEntry at he
        split at he
        · injection he with he
          subst he
          assumption
        · cases he
      rw [ih h d, Credits.of_checkedAdd hnext, List.map_cons, List.sum_cons, Nat.add_assoc]

theorem of_sum {result : Credits} (h : sum routes = .ok result) (d : Resource) :
    result.of d = routes.sumOf d := by
  have hsum := foldlM_addEntry h d
  rwa [Credits.of_zero, Nat.zero_add] at hsum

end CreditsBlob

end Fareward.Limiter
