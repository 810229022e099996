import Fareward.Lib.Machine
import Fareward.Lib.Count
import Fareward.Client.Locks

/-!
# Which lock a push reaches

`held` has one entry per key, a push is looked up by its key, and `Release` deletes whatever is
under the key. That is the right `Lock` as long as the holds of a key do not overlap at the client
(`orderly`): the daemon grants a key again on the connection only when the client is through with
the hold before, and a push is read after the `Lock` it is for was registered. Then the hold that is
not settled is the only one of its key (`Inv.eq_of_unsettled`), and `lost_reaches_own` follows.

Without that, `lost_misses_own` has a release that unregisters the next `Lock` of the key, and a
push that closes the `Lost` channel of another.
-/

namespace Fareward.Client

open Lock

variable {h' : Nat} {lock : LockPhase} {key : LockKey} {wire : List Message}

namespace Hold

/-- The `Lock` is registered and has not been told that it is lost. -/
def isLive (hold : Hold) : Bool :=
  (hold.lock = .registered || hold.lock = .releasing) && !hold.told

/-- Both sides are through with the hold. -/
def isSettled (hold : Hold) : Bool :=
  hold.phase ≠ .held && (hold.lock = .forgotten || hold.lock = .abandoned) &&
    (hold.phase ≠ .expired || hold.told)

/-- What is always so of hold `h`. -/
structure Ok (h : Nat) (hold : Hold) : Prop where
  ungranted : hold.grantSent = false → hold.lock = .awaited
  unpushed : hold.pushSent = false → hold.told = false
  told : hold.told = true → hold.phase = .expired ∧ hold.lock ≠ .awaited ∧ hold.lock ≠ .handed
  own : ∀ h', hold.lost = some (.push h') → h' = h
  reached : hold.told = true → hold.lock = .forgotten ∨ hold.lock = .abandoned ∨ hold.lost ≠ none

end Hold

namespace LockTable

variable {table table' : LockTable} {action : Action} {h : Nat} {hold hold' : Hold}

structure Inv (table : LockTable) : Prop where
  nodup : table.wire.Nodup
  grants : ∀ h, .lockGranted h ∈ table.wire → ∃ hold, table.holds[h]? = some hold ∧
    hold.grantSent = true ∧ hold.lock = .awaited
  pushes : ∀ h, .lockLost h ∈ table.wire → ∃ hold, table.holds[h]? = some hold ∧
    hold.phase = .expired ∧ hold.pushSent = true ∧ hold.told = false
  /-- A key is granted again after the holds before are settled. -/
  settled : ∀ (h h' : Nat) hold hold', h < h' → table.holds[h]? = some hold →
    table.holds[h']? = some hold' → hold.key = hold'.key → hold.isSettled = true
  filed : ∀ key h, table.held.lookup key = some h → ∃ hold, table.holds[h]? = some hold ∧
    hold.key = key ∧ hold.isLive = true
  live : ∀ (h : Nat) hold, table.holds[h]? = some hold → hold.isLive = true →
    table.held.lookup hold.key = some h
  ok : ∀ (h : Nat) hold, table.holds[h]? = some hold → hold.Ok h

theorem Inv.new : Inv new := by
  have hnone : ∀ {h : Nat} {hold : Hold}, LockTable.new.holds[h]? ≠ some hold := by
    intro h hold hh
    cases List.getElem?_nil.symm.trans hh
  exact ⟨List.nodup_nil, fun h hmem => absurd hmem List.not_mem_nil,
    fun h hmem => absurd hmem List.not_mem_nil, fun _ _ _ _ _ hh => absurd hh hnone,
    fun key h hh => absurd ((AList.lookup_empty key).symm.trans hh) nofun,
    fun _ _ hh => absurd hh hnone, fun _ _ hh => absurd hh hnone⟩

/-- Of the holds of a key, one at most is not settled. -/
theorem Inv.eq_of_unsettled (hinv : Inv table) (hh : table.holds[h]? = some hold)
    (hh' : table.holds[h']? = some hold') (hkey : hold.key = hold'.key)
    (hopen : hold.isSettled = false) (hopen' : hold'.isSettled = false) : h = h' := by
  rcases Nat.lt_trichotomy h h' with hlt | heq | hlt
  · cases hopen.symm.trans (hinv.settled h h' hold hold' hlt hh hh' hkey)
  · exact heq
  · cases hopen'.symm.trans (hinv.settled h' h hold' hold hlt hh' hh hkey.symm)

theorem isSettled_of_lock (hlock : hold.lock = lock) (hne : lock ≠ .forgotten)
    (hne' : lock ≠ .abandoned) : hold.isSettled = false := by
  unfold Hold.isSettled
  simp [hlock, hne, hne']

theorem isSettled_of_isLive (hlive : hold.isLive = true) : hold.isSettled = false := by
  unfold Hold.isLive at hlive
  simp only [Bool.and_eq_true, Bool.or_eq_true, decide_eq_true_eq] at hlive
  rcases hlive.1 with hlock | hlock
  all_goals exact isSettled_of_lock hlock nofun nofun

/-- One row changes, and the messages are in step with it. -/
structure Rewrites (table table' : LockTable) (h : Nat) (hold hold' : Hold) : Prop where
  holds : table'.holds = table.holds.set h hold'
  key : hold'.key = hold.key
  nodup : table'.wire.Nodup
  wire : ∀ message ∈ table'.wire,
    message ∈ table.wire ∨ message = .lockGranted h ∨ message = .lockLost h
  grant : .lockGranted h ∈ table'.wire → hold'.grantSent = true ∧ hold'.lock = .awaited
  push : .lockLost h ∈ table'.wire → hold'.phase = .expired ∧ hold'.pushSent = true ∧
    hold'.told = false
  settled : hold.isSettled = true → hold'.isSettled = true

theorem Inv.row (hinv : Inv table) (hh : table.holds[h]? = some hold)
    (hrow : Rewrites table table' h hold hold')
    (hothers : ∀ key j, j ≠ h →
      (table'.held.lookup key = some j ↔ table.held.lookup key = some j))
    (hfiled : ∀ key, table'.held.lookup key = some h → hold'.key = key ∧ hold'.isLive = true)
    (hlive : hold'.isLive = true → table'.held.lookup hold'.key = some h)
    (hok : hold'.Ok h) : Inv table' := by
  have hself : table'.holds[h]? = some hold' := by
    rw [hrow.holds, getElem?_set_of_some hh, if_pos rfl]
  have hother : ∀ {j : Nat}, j ≠ h → table'.holds[j]? = table.holds[j]? := by
    intro j hj
    rw [hrow.holds, getElem?_set_of_some hh, if_neg (Ne.symm hj)]
  -- each row was there before, with the same key and settled if it is now
  have hbefore : ∀ {j : Nat} {hold₁ : Hold}, table'.holds[j]? = some hold₁ →
      ∃ hold₀, table.holds[j]? = some hold₀ ∧ hold₁.key = hold₀.key ∧
        (hold₀.isSettled = true → hold₁.isSettled = true) := by
    intro j hold₁ hj
    by_cases hjh : j = h
    · subst hjh
      obtain rfl := Option.some.inj (hself.symm.trans hj)
      exact ⟨hold, hh, hrow.key, hrow.settled⟩
    · exact ⟨hold₁, (hother hjh).symm.trans hj, rfl, id⟩
  refine ⟨hrow.nodup, fun j hmem => ?_, fun j hmem => ?_,
    fun j j' hold₁ hold₁' hlt hj hj' hsame => ?_, fun key j hj => ?_, fun j hold₁ hj hlive₁ => ?_,
    fun j hold₁ hj => ?_⟩
  · by_cases hjh : j = h
    · subst hjh
      exact ⟨hold', hself, hrow.grant hmem⟩
    · rw [hother hjh]
      refine hinv.grants j ((hrow.wire _ hmem).resolve_right ?_)
      simp [hjh]
  · by_cases hjh : j = h
    · subst hjh
      exact ⟨hold', hself, hrow.push hmem⟩
    · rw [hother hjh]
      refine hinv.pushes j ((hrow.wire _ hmem).resolve_right ?_)
      simp [hjh]
  · obtain ⟨hold₀, hj₀, hkey₀, hmono⟩ := hbefore hj
    obtain ⟨hold₀', hj₀', hkey₀', -⟩ := hbefore hj'
    exact hmono (hinv.settled j j' hold₀ hold₀' hlt hj₀ hj₀' (by rw [← hkey₀, hsame, hkey₀']))
  · by_cases hjh : j = h
    · subst hjh
      exact ⟨hold', hself, hfiled key hj⟩
    · rw [hother hjh]
      exact hinv.filed key j ((hothers key j hjh).mp hj)
  · by_cases hjh : j = h
    · subst hjh
      obtain rfl := Option.some.inj (hself.symm.trans hj)
      exact hlive hlive₁
    · rw [hother hjh] at hj
      exact (hothers _ j hjh).mpr (hinv.live j hold₁ hj hlive₁)
  · by_cases hjh : j = h
    · subst hjh
      obtain rfl := Option.some.inj (hself.symm.trans hj)
      exact hok
    · rw [hother hjh] at hj
      exact hinv.ok j hold₁ hj

/-! What the messages and `held` say of a row. -/

theorem Inv.grant_of (hinv : Inv table) (hh : table.holds[h]? = some hold)
    (hmem : .lockGranted h ∈ table.wire) : hold.grantSent = true ∧ hold.lock = .awaited := by
  obtain ⟨hold₀, hh₀, hgrant⟩ := hinv.grants h hmem
  obtain rfl := Option.some.inj (hh.symm.trans hh₀)
  exact hgrant

theorem Inv.push_of (hinv : Inv table) (hh : table.holds[h]? = some hold)
    (hmem : .lockLost h ∈ table.wire) :
    hold.phase = .expired ∧ hold.pushSent = true ∧ hold.told = false := by
  obtain ⟨hold₀, hh₀, hpush⟩ := hinv.pushes h hmem
  obtain rfl := Option.some.inj (hh.symm.trans hh₀)
  exact hpush

theorem Inv.filed_of (hinv : Inv table) (hh : table.holds[h]? = some hold)
    (hj : table.held.lookup key = some h) : hold.key = key ∧ hold.isLive = true := by
  obtain ⟨hold₀, hh₀, hown⟩ := hinv.filed key h hj
  obtain rfl := Option.some.inj (hh.symm.trans hh₀)
  exact hown

theorem Inv.keep (hinv : Inv table) (hh : table.holds[h]? = some hold)
    (hrow : Rewrites table table' h hold hold') (hheld : table'.held = table.held)
    (hlive : hold'.isLive = hold.isLive) (hok : hold'.Ok h) : Inv table' := by
  refine hinv.row hh hrow (fun key j _ => ?_) (fun key hj => ?_) (fun hl => ?_) hok
  · rw [hheld]
  · rw [hheld] at hj
    obtain ⟨hown, hl⟩ := hinv.filed_of hh hj
    exact ⟨hrow.key.trans hown, hlive.trans hl⟩
  · rw [hheld, hrow.key]
    exact hinv.live h hold hh (hlive.symm.trans hl)

/-- One row changes, and neither the messages nor `held` do. -/
theorem Inv.touch (hinv : Inv table) (hh : table.holds[h]? = some hold)
    (hholds : table'.holds = table.holds.set h hold') (hheld : table'.held = table.held)
    (hwire : table'.wire = table.wire) (hkey : hold'.key = hold.key)
    (hgrant : hold.grantSent = true ∧ hold.lock = .awaited →
      hold'.grantSent = true ∧ hold'.lock = .awaited)
    (hpush : hold.phase = .expired ∧ hold.pushSent = true ∧ hold.told = false →
      hold'.phase = .expired ∧ hold'.pushSent = true ∧ hold'.told = false)
    (hsettled : hold.isSettled = true → hold'.isSettled = true)
    (hlive : hold'.isLive = hold.isLive) (hok : hold'.Ok h) : Inv table' := by
  refine hinv.keep hh ⟨hholds, hkey, hwire ▸ hinv.nodup, fun _ hmem => .inl (hwire ▸ hmem),
    fun hmem => hgrant ?_, fun hmem => hpush ?_, hsettled⟩ hheld hlive hok
  · exact hinv.grant_of hh (hwire ▸ hmem)
  · exact hinv.push_of hh (hwire ▸ hmem)

/-! ### The steps -/

/-- The daemon grants a key on the connection again only when both sides are through with the holds
before, and a push is read when the `Lock` it is for has been registered, or there is none. -/
def orderly (table : LockTable) : Action → Bool
  | .grant key => table.holds.all fun hold => hold.key ≠ key || hold.isSettled
  | .read _ =>
    match table.wire with
    | .lockLost h :: _ => table.holds[h]?.all fun hold =>
      hold.lock ≠ .awaited && hold.lock ≠ .handed
    | _ => true
  | _ => true

theorem Inv.grant (hinv : Inv table) (horderly : table.orderly (.grant key) = true) :
    Inv { table with
      holds := table.holds ++ [⟨key, .held, false, false, false, .awaited, none⟩] } := by
  have hkept : ∀ {j : Nat} {hold₁ : Hold}, table.holds[j]? = some hold₁ →
      (table.holds ++ [⟨key, .held, false, false, false, .awaited, none⟩])[j]? = some hold₁ :=
    fun hj => (List.getElem?_append_left (List.getElem?_eq_some_iff.mp hj).1).trans hj
  refine ⟨hinv.nodup, fun j hmem => ?_, fun j hmem => ?_,
    fun j j' hold₁ hold₁' hlt hj hj' hsame => ?_, fun key' j hj => ?_, fun j hold₁ hj hlive => ?_,
    fun j hold₁ hj => ?_⟩
  · obtain ⟨hold₁, hj, hgrant⟩ := hinv.grants j hmem
    exact ⟨hold₁, hkept hj, hgrant⟩
  · obtain ⟨hold₁, hj, hpush⟩ := hinv.pushes j hmem
    exact ⟨hold₁, hkept hj, hpush⟩
  · rcases getElem?_concat_some hj with hj | ⟨rfl, -⟩
    · rcases getElem?_concat_some hj' with hj' | ⟨-, rfl⟩
      · exact hinv.settled j j' hold₁ hold₁' hlt hj hj' hsame
      · have hall := List.all_eq_true.mp horderly hold₁ (List.mem_of_getElem? hj)
        simpa [hsame] using hall
    · have := (List.getElem?_eq_some_iff.mp hj').1
      rw [List.length_append, List.length_singleton] at this
      omega
  · obtain ⟨hold₁, hj, hown⟩ := hinv.filed key' j hj
    exact ⟨hold₁, hkept hj, hown⟩
  · rcases getElem?_concat_some hj with hj | ⟨-, rfl⟩
    · exact hinv.live j hold₁ hj hlive
    · cases hlive
  · rcases getElem?_concat_some hj with hj | ⟨-, rfl⟩
    · exact hinv.ok j hold₁ hj
    · exact ⟨fun _ => rfl, fun _ => rfl, nofun, nofun, nofun⟩

theorem Inv.sendGrant (hinv : Inv table) (hh : table.holds[h]? = some hold)
    (hunsent : hold.grantSent = false) :
    Inv { table.setHold h { hold with grantSent := true } with
      wire := table.wire ++ [.lockGranted h] } := by
  have hok := hinv.ok h hold hh
  have hnew : .lockGranted h ∉ table.wire := fun hmem =>
    absurd (hunsent.symm.trans (hinv.grant_of hh hmem).1) nofun
  refine hinv.keep hh ⟨rfl, rfl, ?_, fun message hmem => ?_,
    fun _ => ⟨rfl, hok.ungranted hunsent⟩, fun hmem => ?_, id⟩ rfl rfl
    ⟨nofun, hok.unpushed, hok.told, hok.own, hok.reached⟩
  · exact List.concat_eq_append ▸ List.Nodup.concat hnew hinv.nodup
  · exact (List.mem_append.mp hmem).imp_right fun hlast => .inl (List.mem_singleton.mp hlast)
  · have hpush := hinv.push_of hh ((List.mem_append.mp hmem).resolve_right (by simp))
    exact hpush

theorem Inv.sendPush (hinv : Inv table) (hh : table.holds[h]? = some hold)
    (hexpired : hold.phase = .expired) (hunsent : hold.pushSent = false) :
    Inv { table.setHold h { hold with pushSent := true } with
      wire := table.wire ++ [.lockLost h] } := by
  have hok := hinv.ok h hold hh
  have hnew : .lockLost h ∉ table.wire := fun hmem =>
    absurd (hunsent.symm.trans (hinv.push_of hh hmem).2.1) nofun
  refine hinv.keep hh ⟨rfl, rfl, ?_, fun message hmem => ?_, fun hmem => ?_,
    fun _ => ⟨hexpired, rfl, hok.unpushed hunsent⟩, id⟩ rfl rfl
    ⟨hok.ungranted, nofun, hok.told, hok.own, hok.reached⟩
  · exact List.concat_eq_append ▸ List.Nodup.concat hnew hinv.nodup
  · exact (List.mem_append.mp hmem).imp_right fun hlast => .inr (List.mem_singleton.mp hlast)
  · have hgrant := hinv.grant_of hh ((List.mem_append.mp hmem).resolve_right (by simp))
    exact hgrant

/-- The first message is read. -/
theorem Inv.tail {message : Message} (hinv : Inv table) (hwire : table.wire = message :: wire) :
    message ∉ wire ∧ wire.Nodup ∧ wire ⊆ table.wire := by
  have hnodup := hinv.nodup
  rw [hwire, List.nodup_cons] at hnodup
  exact ⟨hnodup.1, hnodup.2, hwire ▸ List.subset_cons_self _ _⟩

theorem Inv.readGrant (hinv : Inv table) (hwire : table.wire = .lockGranted h :: wire)
    (hh : table.holds[h]? = some hold) (hlock : lock = .abandoned ∨ lock = .handed) :
    Inv { table.setHold h { hold with lock } with wire } := by
  obtain ⟨hnew, hnodup, hsub⟩ := hinv.tail hwire
  have hok := hinv.ok h hold hh
  obtain ⟨hsent, hawaited⟩ := hinv.grant_of hh (hwire ▸ List.mem_cons_self)
  -- the hold is not lost before its grant is read
  have htold : hold.told = false := by
    by_contra htold
    exact (hok.told (Bool.eq_true_of_not_eq_false htold)).2.1 hawaited
  refine hinv.keep hh ⟨rfl, rfl, hnodup, fun _ hmem => .inl (hsub hmem),
    fun hmem => absurd hmem hnew, fun hmem => ?_, fun hs => ?_⟩ rfl ?_
    ⟨fun hunsent => ?_, hok.unpushed, fun ht => ?_, hok.own, fun ht => ?_⟩
  · have hpush := hinv.push_of hh (hsub hmem)
    exact hpush
  · cases hs.symm.trans (isSettled_of_lock hawaited nofun nofun)
  · unfold Hold.isLive
    rcases hlock with rfl | rfl
    all_goals simp [hawaited]
  · cases hunsent.symm.trans hsent
  · cases htold.symm.trans ht
  · cases htold.symm.trans ht

/-- What is under the key of a hold that is not settled is its own `Lock`. -/
theorem Inv.own_of_lookup {j : Nat} (hinv : Inv table) (hh : table.holds[h]? = some hold)
    (hopen : hold.isSettled = false) (hj : table.held.lookup hold.key = some j) : j = h := by
  obtain ⟨hold₁, hj₁, hkey, hlive⟩ := hinv.filed _ j hj
  exact hinv.eq_of_unsettled hj₁ hh hkey (isSettled_of_isLive hlive) hopen

theorem Inv.register (hinv : Inv table) (hh : table.holds[h]? = some hold)
    (hlock : hold.lock = .handed) :
    Inv { table.setHold h { hold with lock := .registered } with
      held := table.held.insert hold.key h } := by
  have hok := hinv.ok h hold hh
  have hopen := isSettled_of_lock hlock nofun nofun
  have htold : hold.told = false := by
    by_contra htold
    exact (hok.told (Bool.eq_true_of_not_eq_false htold)).2.2 hlock
  refine hinv.row hh ⟨rfl, rfl, hinv.nodup, fun _ => .inl, fun hmem => ?_, fun hmem => ?_,
    fun hs => ?_⟩ (fun key j hne => ?_) (fun key hj => ⟨?_, ?_⟩) (fun _ => AList.lookup_insert _)
    ⟨fun hunsent => ?_, hok.unpushed, fun ht => ?_, hok.own, fun ht => ?_⟩
  · cases hlock.symm.trans (hinv.grant_of hh hmem).2
  · have hpush := hinv.push_of hh hmem
    exact hpush
  · cases hs.symm.trans hopen
  · by_cases hkey : key = hold.key
    · -- nothing else is registered under the key
      subst hkey
      refine ⟨fun hj => absurd ?_ hne, fun hj => absurd (hinv.own_of_lookup hh hopen hj) hne⟩
      exact (Option.some.inj ((AList.lookup_insert _).symm.trans hj)).symm
    · rw [show (table.held.insert hold.key h).lookup key = _ from AList.lookup_insert_ne hkey]
  · by_contra hkey
    exact hkey (hinv.filed_of hh ((AList.lookup_insert_ne (Ne.symm hkey)).symm.trans hj)).1
  · unfold Hold.isLive
    rw [htold]
    rfl
  · cases hlock.symm.trans (hok.ungranted hunsent)
  · cases htold.symm.trans ht
  · cases htold.symm.trans ht

/-- The entry of an unsettled hold is taken out: no other `Lock` loses its own. -/
theorem Inv.erase (hinv : Inv table) (hh : table.holds[h]? = some hold)
    (hopen : hold.isSettled = false) (hkey : hold'.key = hold.key) (hsub : wire ⊆ table.wire)
    (hnodup : wire.Nodup)
    (hgrant : .lockGranted h ∈ wire → hold'.grantSent = true ∧ hold'.lock = .awaited)
    (hpush : .lockLost h ∈ wire → hold'.phase = .expired ∧ hold'.pushSent = true ∧
      hold'.told = false) (hlive : hold'.isLive = false) (hok : hold'.Ok h) :
    Inv { table.setHold h hold' with held := table.held.erase hold.key, wire } := by
  refine hinv.row hh
    ⟨rfl, hkey, hnodup, fun _ hmem => .inl (hsub hmem), hgrant, hpush, fun hs => ?_⟩
    (fun key j hne => ⟨fun hj => (lookup_of_lookup_erase hj).2, fun hj => ?_⟩) (fun key hj => ?_)
    (fun hl => ?_) hok
  · cases hs.symm.trans hopen
  · have hother : key ≠ hold.key := by
      rintro rfl
      exact hne (hinv.own_of_lookup hh hopen hj)
    exact (AList.lookup_erase_ne hother).trans hj
  · obtain ⟨hne, hfiled⟩ := lookup_of_lookup_erase hj
    exact absurd (hinv.filed_of hh hfiled).1.symm hne
  · cases hlive.symm.trans hl

theorem Inv.forgetHeld (hinv : Inv table) (hh : table.holds[h]? = some hold)
    (hlock : hold.lock = .releasing) :
    Inv { table.setHold h { hold with lock := .forgotten } with
      held := table.held.erase hold.key } := by
  have hok := hinv.ok h hold hh
  have hopen := isSettled_of_lock hlock nofun nofun
  refine hinv.erase hh hopen rfl (fun _ => id) hinv.nodup (fun hmem => ?_) (fun hmem => ?_) rfl
    ⟨fun hunsent => ?_, hok.unpushed, fun ht => ⟨(hok.told ht).1, nofun, nofun⟩, hok.own,
      fun _ => .inl rfl⟩
  · cases hlock.symm.trans (hinv.grant_of hh hmem).2
  · have hpush := hinv.push_of hh hmem
    exact hpush
  · cases hlock.symm.trans (hok.ungranted hunsent)

theorem Inv.readPush (hinv : Inv table) (hwire : table.wire = .lockLost h :: wire)
    (hh : table.holds[h]? = some hold) (horderly : table.orderly (.read false) = true) :
    Inv ({ table.setHold h { hold with told := true } with wire }.handlePush h hold.key) := by
  obtain ⟨hnew, hnodup, hsub⟩ := hinv.tail hwire
  have hok := hinv.ok h hold hh
  obtain ⟨hexpired, hsent, htold⟩ := hinv.push_of hh (hwire ▸ List.mem_cons_self)
  have hopen : hold.isSettled = false := by
    unfold Hold.isSettled
    simp [hexpired, htold]
  have hregistered : hold.lock ≠ .awaited ∧ hold.lock ≠ .handed := by
    unfold orderly at horderly
    dsimp only at horderly
    rw [hwire] at horderly
    dsimp only at horderly
    rw [hh, Option.all_some] at horderly
    simpa using horderly
  have hgrant : .lockGranted h ∈ wire → False := fun hmem =>
    hregistered.1 (hinv.grant_of hh (hsub hmem)).2
  have hlive : ∀ lost, ({ hold with told := true, lost } : Hold).isLive = false := by
    intro lost
    unfold Hold.isLive
    exact Bool.and_false _
  unfold handlePush
  dsimp only
  cases hlookup : table.held.lookup hold.key with
  | none =>
    rw [show ({ table.setHold h { hold with told := true } with wire } : LockTable).held.lookup
      hold.key = none from hlookup]
    refine hinv.erase hh hopen rfl hsub hnodup (fun hmem => (hgrant hmem).elim)
      (fun hmem => absurd hmem hnew) (hlive _)
      ⟨hok.ungranted, fun hunsent => ?_, fun _ => ⟨hexpired, hregistered⟩, hok.own, fun _ => ?_⟩
    · cases hunsent.symm.trans hsent
    · -- the `Lock` was released before
      have hdead : hold.isLive = false := by
        by_contra hl
        rw [hinv.live h hold hh (Bool.eq_true_of_not_eq_false hl)] at hlookup
        cases hlookup
      unfold Hold.isLive at hdead
      show hold.lock = .forgotten ∨ hold.lock = .abandoned ∨ hold.lost ≠ none
      cases hlock : hold.lock with
      | awaited => exact absurd hlock hregistered.1
      | handed => exact absurd hlock hregistered.2
      | registered | releasing =>
        rw [hlock, htold] at hdead
        cases hdead
      | forgotten => exact .inl rfl
      | abandoned => exact .inr (.inl rfl)
  | some j =>
    obtain rfl := hinv.own_of_lookup hh hopen hlookup
    rw [show ({ table.setHold j { hold with told := true } with wire } : LockTable).held.lookup
      hold.key = some j from hlookup]
    have hset : (table.holds.set j { hold with told := true })[j]? =
        some { hold with told := true } := (getElem?_set_of_some hh _ j).trans (if_pos rfl)
    have heq : ({ table.setHold j { hold with told := true } with
        held := table.held.erase hold.key, wire } : LockTable).markLost j (.push j) =
        { table.setHold j { hold with told := true, lost := hold.lost.or (some (.push j)) } with
          held := table.held.erase hold.key, wire } := by
      unfold markLost setHold
      dsimp only
      rw [modify_eq_set hset, List.set_set]
    dsimp only
    show Inv (({ table.setHold j { hold with told := true } with
        held := table.held.erase hold.key, wire } : LockTable).markLost j (.push j))
    rw [heq]
    refine hinv.erase hh hopen rfl hsub hnodup (fun hmem => (hgrant hmem).elim)
      (fun hmem => absurd hmem hnew) (hlive _)
      ⟨hok.ungranted, fun hunsent => ?_, fun _ => ⟨hexpired, hregistered⟩, fun h' hlost => ?_,
        fun _ => .inr (.inr ?_)⟩
    · cases hunsent.symm.trans hsent
    · cases hcause : hold.lost with
      | none =>
        rw [hcause] at hlost
        exact (LostCause.push.inj (Option.some.inj hlost)).symm
      | some =>
        rw [hcause] at hlost
        cases hlost
        exact hok.own h' hcause
    · cases hold.lost <;> nofun

/-- The daemon is through with a hold: the key, the messages and the `Lock` stay. -/
theorem Inv.setPhase {phase : HoldPhase} (hinv : Inv table) (hh : table.holds[h]? = some hold)
    (hheld : hold.phase = .held) : Inv (table.setHold h { hold with phase }) := by
  have hok := hinv.ok h hold hh
  refine hinv.touch hh rfl rfl rfl rfl id (fun hpush => ?_) (fun hs => ?_) rfl
    ⟨hok.ungranted, hok.unpushed, fun ht => ?_, hok.own, hok.reached⟩
  · cases hheld.symm.trans hpush.1
  · unfold Hold.isSettled at hs
    rw [hheld] at hs
    cases hs
  · cases hheld.symm.trans (hok.told ht).1

theorem Inv.release (hinv : Inv table) (hh : table.holds[h]? = some hold)
    (hlock : hold.lock = .registered) :
    Inv (table.setHold h { hold with lock := .releasing }) := by
  have hok := hinv.ok h hold hh
  refine hinv.touch hh rfl rfl rfl rfl (fun hgrant => ?_) id (fun hs => ?_) ?_
    ⟨fun hunsent => ?_, hok.unpushed, fun ht => ⟨(hok.told ht).1, nofun, nofun⟩, hok.own,
      fun ht => ?_⟩
  · cases hlock.symm.trans hgrant.2
  · unfold Hold.isSettled at hs
    rw [hlock] at hs
    simp at hs
  · unfold Hold.isLive
    rw [hlock]
    rfl
  · cases hlock.symm.trans (hok.ungranted hunsent)
  · rcases hok.reached ht with hforgotten | habandoned | hlost
    · cases hlock.symm.trans hforgotten
    · cases hlock.symm.trans habandoned
    · exact .inr (.inr hlost)

theorem Inv.lapse (hinv : Inv table) (hh : table.holds[h]? = some hold) :
    Inv (table.markLost h .watcher) := by
  have hok := hinv.ok h hold hh
  refine hinv.touch hh (modify_eq_set hh _) rfl rfl rfl id id id rfl
    ⟨hok.ungranted, hok.unpushed, hok.told, fun h' hlost => hok.own h' ?_, fun _ => .inr (.inr ?_)⟩
  · cases hcause : hold.lost with
    | none =>
      rw [hcause] at hlost
      cases hlost
    | some =>
      rw [hcause] at hlost
      exact hlost
  · cases hold.lost <;> nofun

theorem Inv.step (hinv : Inv table) (horderly : table.orderly action = true)
    (hs : table.step action = some table') : Inv table' := by
  cases action with
  | grant =>
    obtain ⟨-, hs⟩ := Option.ite_none_right_eq_some.mp hs
    cases hs
    exact hinv.grant horderly
  | read abandoned =>
    unfold LockTable.step at hs
    dsimp only at hs
    split at hs
    · next h wire hwire =>
      obtain ⟨hold, hh, rfl⟩ := Option.map_eq_some_iff.mp hs
      refine hinv.readGrant hwire hh ?_
      cases abandoned
      · exact .inr rfl
      · exact .inl rfl
    · next h wire hwire =>
      obtain ⟨hold, hh, rfl⟩ := Option.map_eq_some_iff.mp hs
      exact hinv.readPush hwire hh horderly
    · cases hs
  | sendGrant | expire | sendPush | register | release | forgetHeld | releaseHold | lapse =>
    obtain ⟨hold, hh, hs⟩ := Option.bind_eq_some_iff.mp hs
    obtain ⟨hif, hs⟩ := Option.ite_none_right_eq_some.mp hs
    cases hs
    first
    | exact hinv.sendGrant hh hif
    | exact hinv.setPhase hh hif
    | exact hinv.sendPush hh hif.1 hif.2
    | exact hinv.register hh hif
    | exact hinv.release hh hif
    | exact hinv.forgetHeld hh hif
    | exact hinv.setPhase hh hif.1
    | exact hinv.lapse hh

/-- Between two states of `forgetHeld h`, the entries of the other locks stay. -/
theorem Inv.forgetHeld_keeps (hinv : Inv table) (hs : table.step (.forgetHeld h) = some table')
    (hne : h' ≠ h) (hh' : table.held.lookup key = some h') : table'.held.lookup key = some h' := by
  obtain ⟨hold, hh, hs⟩ := Option.bind_eq_some_iff.mp hs
  obtain ⟨hlock, hs⟩ := Option.ite_none_right_eq_some.mp hs
  cases hs
  have hother : key ≠ hold.key := by
    rintro rfl
    exact hne (hinv.own_of_lookup hh (isSettled_of_lock hlock nofun nofun) hh')
  exact (AList.lookup_erase_ne hother).trans hh'

/-- **A push reaches its own lock.** In every orderly run, a `Lost` channel that a push closed was
closed by the push for its own hold; once the push of a hold has been read, the channel of its
`Lock` is closed, unless there is no such `Lock` any more; and a release leaves every other `Lock`
registered. -/
theorem lost_reaches_own
    (hreach : Reaches step (fun table action => table.orderly action = true) new table) :
    (∀ (h : Nat) hold, table.holds[h]? = some hold →
      (∀ h', hold.lost = some (.push h') → h' = h) ∧
      (hold.told = true → hold.phase = .expired ∧
        (hold.lock = .forgotten ∨ hold.lock = .abandoned ∨ hold.lost ≠ none))) ∧
    ∀ h table', table.step (.forgetHeld h) = some table' →
      ∀ key h', h' ≠ h → table.held.lookup key = some h' →
        table'.held.lookup key = some h' := by
  have hinv : Inv table := by
    refine hreach.invariant (I := Inv) .new ?_
    rintro table action table' - htable horderly hs
    exact htable.step horderly hs
  refine ⟨fun h hold hh => ?_, fun h table' hs key h' hne hh' => hinv.forgetHeld_keeps hs hne hh'⟩
  have hok := hinv.ok h hold hh
  exact ⟨hok.own, fun ht => ⟨(hok.told ht).1, hok.reached ht⟩⟩

/-- The next hold of the key, `h`, is granted and its `Lock` registered. -/
def acquired (h : Nat) : List Action :=
  [.grant ⟨7, -42⟩, .sendGrant h, .read false, .register h]

/-- Hold `h` is dropped, and its push is read. -/
def dropped (h : Nat) : List Action := [.expire h, .sendPush h, .read false]

theorem lost_reaches_own_dropped : ∃ table hold,
    Reaches step (fun table action => table.orderly action = true) new table ∧
    table.holds[0]? = some hold ∧ hold.told = true ∧ hold.lost = some (.push 0) ∧
    ∀ h', hold.lost = some (.push h') → h' = 0 := by
  obtain ⟨table, hreach, hold, hh, htold, hlost⟩ : ∃ table,
      Reaches step (fun table action => table.orderly action = true) new table ∧
      ∃ hold ∈ table.holds[0]?, hold.told = true ∧ hold.lost = some (.push 0) :=
    exists_of_runList (acquired 0 ++ dropped 0) (by decide +kernel)
  exact ⟨table, hold, hreach, hh, htold, hlost, ((lost_reaches_own hreach).1 0 hold hh).1⟩

/-- The first `Lock` has been lost, the key is held again, and only then the caller releases the
first. -/
def lateRelease : List Action := acquired 0 ++ dropped 0 ++ acquired 1 ++ [.release 0]

/-- The push for the first hold is read before its `Lock` is registered, which happens after the key
is granted again; then the second hold is dropped. -/
def lateRegister : List Action :=
  [.grant ⟨7, -42⟩, .sendGrant 0, .read false] ++ dropped 0 ++ acquired 1 ++ [.register 0] ++
    dropped 1

/-- Without the order, `Release` of the first `Lock` unregisters the second, whose push then reaches
nothing; and a push closes the first `Lock`, in place of the second. -/
theorem lost_misses_own :
    (∃ table table' : LockTable, Reaches step (fun _ _ => True) new table ∧
      table.held.lookup ⟨7, -42⟩ = some 1 ∧ table.step (.forgetHeld 0) = some table' ∧
      table'.held.lookup ⟨7, -42⟩ = none) ∧
    ∃ (table : LockTable) (first second : Hold), Reaches step (fun _ _ => True) new table ∧
      table.holds[0]? = some first ∧ first.lost = some (.push 1) ∧
      table.holds[1]? = some second ∧ second.told = true ∧ second.lock = .registered ∧
      second.lost = none := by
  constructor
  · obtain ⟨table, hreach, hfiled, table', h⟩ : ∃ table, Reaches step (fun _ _ => True) new table ∧
        table.held.lookup ⟨7, -42⟩ = some 1 ∧
        ∃ table' ∈ table.step (.forgetHeld 0), table'.held.lookup ⟨7, -42⟩ = none :=
      exists_of_runList lateRelease (by decide +kernel)
    exact ⟨table, table', hreach, hfiled, h⟩
  · obtain ⟨table, hreach, ⟨first, hfirst, hlost⟩, second, h⟩ : ∃ table,
        Reaches step (fun _ _ => True) new table ∧
        (∃ first ∈ table.holds[0]?, first.lost = some (.push 1)) ∧
        ∃ second ∈ table.holds[1]?, second.told = true ∧ second.lock = .registered ∧
          second.lost = none := exists_of_runList lateRegister (by decide +kernel)
    exact ⟨table, first, second, hreach, hfirst, hlost, h⟩

end LockTable

end Fareward.Client
