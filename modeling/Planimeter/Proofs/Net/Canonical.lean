import Planimeter.Host
import Planimeter.Proofs.Net.Reading
/-!
# Canonical texts of addresses

The canonical text of an address is read as the address again. For version 6 the text is split at
the run of zeros that two colons stand for: what is before and after the run is read as groups, and
the zeros between are made up from their number. That the run is the first longest one is a fact of
its own, since any run of zeros would be read back.
-/
namespace Planimeter

/-- The first of the longest runs of zeros begins after `start` groups and has `length`. -/
structure FirstLongestRun (gs : List Group) (start length : Nat) : Prop where
  zeros : gs = gs.take start ++ List.replicate length 0 ++ gs.drop (start + length)
  longest : ∀ before n after, gs = before ++ List.replicate n 0 ++ after → n ≤ length
  first : ∀ before after, gs = before ++ List.replicate length 0 ++ after → start ≤ before.length

namespace FirstLongestRun

variable {gs : List Group} {start length start' length' : Nat}

theorem unique (h : FirstLongestRun gs start length) (h' : FirstLongestRun gs start' length') :
    start = start' ∧ length = length' := by
  obtain rfl : length = length' := Nat.le_antisymm (h'.longest _ _ _ h.zeros)
    (h.longest _ _ _ h'.zeros)
  have hstart := h.first _ _ h'.zeros
  have hstart' := h'.first _ _ h.zeros
  rw [List.length_take] at hstart hstart'
  exact ⟨by omega, rfl⟩

end FirstLongestRun

/-- The zeros in front are the longest run there. -/
theorem le_length_takeWhile_zero {gs after : List Group} {n : Nat}
    (h : gs = List.replicate n 0 ++ after) : n ≤ (gs.takeWhile (· = 0)).length := by
  rw [h, List.takeWhile_append_of_pos (by simp), List.length_append, List.length_replicate]
  exact Nat.le_add_right n _

theorem firstLongestRun_longestZeros (gs : List Group) :
    FirstLongestRun gs (Ipv6.longestZeros gs).1 (Ipv6.longestZeros gs).2 := by
  induction gs with
  | nil =>
    refine ⟨rfl, fun before n after h => ?_, fun before after _ => Nat.zero_le _⟩
    have hlength := congrArg List.length h
    simp only [List.length_nil, List.length_append, List.length_replicate] at hlength
    omega
  | cons g gs ih =>
    rw [Ipv6.longestZeros]
    generalize Ipv6.longestZeros gs = run at ih ⊢
    obtain ⟨start, length⟩ := run
    dsimp only at ih ⊢
    split
    · next hle =>
      refine ⟨?_, fun before n after h => ?_, fun _ _ _ => Nat.zero_le _⟩
      · have hzeros : (g :: gs).takeWhile (· = 0) =
            List.replicate ((g :: gs).takeWhile (· = 0)).length 0 :=
          List.eq_replicate_iff.2 ⟨rfl, fun x hx => by simpa using List.mem_takeWhile_imp hx⟩
        have hsplit := List.take_append_drop ((g :: gs).takeWhile (· = 0)).length (g :: gs)
        rw [← List.prefix_iff_eq_take.1 (List.takeWhile_prefix _)] at hsplit
        rw [← hzeros, List.take_zero, List.nil_append, Nat.zero_add]
        exact hsplit.symm
      · cases before with
        | nil => exact le_length_takeWhile_zero h
        | cons b before => exact Nat.le_trans (ih.longest before n after (List.cons.inj h).2) hle
    · next hlt =>
      refine ⟨?_, fun before n after h => ?_, fun before after h => ?_⟩
      · rw [List.take_succ_cons, Nat.add_right_comm, List.drop_succ_cons, List.cons_append,
          List.cons_append, ← ih.zeros]
      · cases before with
        | nil => exact Nat.le_trans (le_length_takeWhile_zero h) (Nat.le_of_not_le hlt)
        | cons b before => exact ih.longest before n after (List.cons.inj h).2
      · cases before with
        | nil => exact absurd (le_length_takeWhile_zero h) hlt
        | cons b before => exact Nat.succ_le_succ (ih.first before after (List.cons.inj h).2)

theorem FirstLongestRun.eq {gs : List Group} {start length : Nat}
    (h : FirstLongestRun gs start length) : Ipv6.longestZeros gs = (start, length) := by
  obtain ⟨hstart, hlength⟩ := (firstLongestRun_longestZeros gs).unique h
  rw [← hstart, ← hlength]

namespace Ipv6

theorem mapped?_eq_some {x : Ipv6} {v4 : Ipv4} (h : x.mapped? = some v4) : x.groups =
    [0, 0, 0, 0, 0, 65535, SocketAddress.group v4.a v4.b, SocketAddress.group v4.c v4.d] := by
  unfold mapped? at h
  split at h
  · next g k hgroups =>
    rw [hgroups, ← Option.some.inj h]
    have hgroup (n : Group) :
        SocketAddress.group (.ofNat 256 (n / 256)) (.ofNat 256 (n % 256)) = n := by
      ext
      simp only [SocketAddress.group, Fin.val_ofNat]
      omega
    simp only [hgroup]
  · contradiction

@[simp] theorem longestZeros_mapped (g k : Group) :
    longestZeros [0, 0, 0, 0, 0, 65535, g, k] = (0, 5) := by
  by_cases hg : g = 0 <;> by_cases hk : k = 0 <;> simp [longestZeros, hg, hk]

end Ipv6

namespace SocketAddress

open Text (Reader)

variable {rest : List Char}

theorem ofParts?_eq {x : Ipv6} {head tail : List Group} {n : Nat}
    (h : x.groups = head ++ List.replicate n 0 ++ tail) : ofParts? head tail = some x := by
  have hlength := congrArg List.length h
  simp only [x.length_groups, List.length_append, List.length_replicate] at hlength
  obtain ⟨groups, hgroups⟩ := x
  dsimp only at h
  subst h
  rw [ofParts?, dif_pos (by omega)]
  simp only [show 8 - head.length - tail.length = n by omega]

/-- Eight groups are read as they are. -/
theorem ipv6_groups (x : Ipv6) (h : Closes rest) :
    ipv6 ((Ipv6.groupsText x.groups).toList ++ rest) = some (x, rest) := by
  have hread := groups_text 8 x.groups (Nat.le_of_eq x.length_groups) h
  have hparts : ofParts? x.groups [] = some x := ofParts?_eq (n := 0) (by simp)
  rw [ipv6, Reader.bind_of_some (congrArg some hread)]
  simp only [x.length_groups, if_true, hparts]
  rfl

/-- An address of version 4 is read as two groups. -/
theorem groups_embedded (most : Nat) (v4 : Ipv4) (h : Closes rest) :
    groups (most + 3) true ("ffff:".toList ++ (v4.text.toList ++ rest)) =
      (([65535, group v4.a v4.b, group v4.c v4.d], true), rest) := by
  have hcolon : AfterGroup (':' :: (v4.text.toList ++ rest)) := afterGroup_cons (.inl rfl)
  have hcons (cs : List Char) : separated false ipv4 (':' :: cs) = ipv4 cs :=
    separated_cons false ipv4 cs
  have hv4 : separated false ipv4 (':' :: (v4.text.toList ++ rest)) = some (v4, rest) :=
    (hcons _).trans (ipv4_text v4 h.afterGroup.stops)
  have hlast : groups (most + 2) false (':' :: (v4.text.toList ++ rest)) =
      (([group v4.a v4.b, group v4.c v4.d], true), rest) := by
    rw [groups, hv4, if_neg (Nat.succ_ne_zero most)]
  have hdigits : Nat.toDigits 16 (65535 : Group).val = ['f', 'f', 'f', 'f'] := by decide
  have hfirst := groups_cons (most + 2) true 65535 hcolon
  rw [hlast, hdigits] at hfirst
  simpa using hfirst

/-- Two colons are read as the zeros between the groups on both sides. -/
theorem ipv6_contracted {x : Ipv6} {head tail : List Group} {embeds : Bool} {n : Nat}
    {written : List Char} (hx : x.groups = head ++ List.replicate n 0 ++ tail) (hn : n ≠ 0)
    (hwritten : groups (7 - head.length) true (written ++ rest) = ((tail, embeds), rest)) :
    ipv6 ((Ipv6.groupsText head).toList ++ ':' :: ':' :: (written ++ rest)) = some (x, rest) := by
  have hlength := congrArg List.length hx
  simp only [x.length_groups, List.length_append, List.length_replicate] at hlength
  have hhead := groups_text 8 head (by omega) (.zeros (written ++ rest))
  rw [ipv6, Reader.bind_of_some (congrArg some hhead)]
  dsimp only
  rw [if_neg (by omega), if_neg (by simp), Reader.bind_of_some (Reader.char_cons ':' _),
    Reader.bind_of_some (Reader.char_cons ':' _), Reader.bind_of_some (congrArg some hwritten)]
  simp only [ofParts?_eq hx]
  rfl

end SocketAddress

namespace Ipv6

open SocketAddress (Closes)

/-- What is written behind the two colons: the address of version 4 that is embedded, or groups. -/
def textBehind (x : Ipv6) (start : Nat) : String :=
  match x.mapped? with
  | some v4 => s!"ffff:{v4.text}"
  | none => groupsText (x.groups.drop start)

/-- The text of an address whose first longest run of zeros is worth two colons. -/
theorem text_of_run {x : Ipv6} {start length : Nat} (h : FirstLongestRun x.groups start length)
    (htwo : 2 ≤ length) :
    x.text = s!"{groupsText (x.groups.take start)}::{x.textBehind (start + length)}" := by
  cases hmapped : x.mapped? with
  | some v4 =>
    have heq := h.eq
    rw [mapped?_eq_some hmapped, longestZeros_mapped] at heq
    obtain ⟨rfl, rfl⟩ := Prod.mk.inj heq
    apply String.toList_inj.1
    simp [text, textBehind, hmapped, groupsText, toString]
  | none => simp [text, textBehind, hmapped, h.eq, htwo]

/-- The text of an address without two zeros next to each other. -/
theorem text_of_no_run {x : Ipv6} {start length : Nat} (h : FirstLongestRun x.groups start length)
    (hone : length < 2) : x.text = groupsText x.groups := by
  cases hmapped : x.mapped? with
  | some v4 =>
    have heq := h.eq
    rw [mapped?_eq_some hmapped, longestZeros_mapped] at heq
    obtain ⟨rfl, rfl⟩ := Prod.mk.inj heq
    omega
  | none => simp [text, hmapped, h.eq, Nat.not_le.2 hone]

/-- What is written behind the two colons is read as the groups there. -/
theorem groups_textBehind {x : Ipv6} {start length : Nat} {rest : List Char}
    (h : FirstLongestRun x.groups start length) (htwo : 2 ≤ length) (hrest : Closes rest) :
    ∃ embeds, SocketAddress.groups (7 - (x.groups.take start).length) true
        ((x.textBehind (start + length)).toList ++ rest) =
      ((x.groups.drop (start + length), embeds), rest) := by
  cases hmapped : x.mapped? with
  | some v4 =>
    have hgroups := mapped?_eq_some hmapped
    have heq := h.eq
    rw [hgroups, longestZeros_mapped] at heq
    obtain ⟨rfl, rfl⟩ := Prod.mk.inj heq
    have hread := SocketAddress.groups_embedded 4 v4 hrest
    rw [hgroups]
    refine ⟨true, ?_⟩
    simpa [textBehind, hmapped, toString] using hread
  | none =>
    have hlength := congrArg List.length h.zeros
    simp only [x.length_groups, List.length_append, List.length_replicate] at hlength
    simp only [textBehind, hmapped]
    exact ⟨false, SocketAddress.groups_text _ _ (by omega) hrest⟩

theorem ipv6_text (x : Ipv6) {rest : List Char} (hrest : Closes rest) :
    SocketAddress.ipv6 (x.text.toList ++ rest) = some (x, rest) := by
  have hrun := firstLongestRun_longestZeros x.groups
  generalize longestZeros x.groups = run at hrun
  obtain ⟨start, length⟩ := run
  by_cases htwo : 2 ≤ length
  · obtain ⟨embeds, hread⟩ := groups_textBehind hrun htwo hrest
    have hcontracted := SocketAddress.ipv6_contracted hrun.zeros (by dsimp only; omega) hread
    rw [text_of_run hrun htwo]
    simpa [toString] using hcontracted
  · rw [text_of_no_run hrun (by omega)]
    exact SocketAddress.ipv6_groups x hrest

end Ipv6

namespace SocketAddress

open Text (Reader)

theorem stops_nil (base : Nat) : Stops base [] := by
  intro c hc
  contradiction

theorem port_digits (p : Fin 65536) : port (':' :: Nat.toDigits 10 p) = some (p, []) := by
  have hnumber : number 10 65536 none (Nat.toDigits 10 p ++ []) = some (p, []) :=
    number_toDigits (by decide) (by decide) p.isLt (by simp) (stops_nil 10)
  rw [List.append_nil] at hnumber
  exact (Reader.bind_of_some (Reader.char_cons ':' _)).trans hnumber

theorem scope_digits (scope : Fin UInt32.size) (rest : List Char) :
    SocketAddress.scope ('%' :: (Nat.toDigits 10 scope ++ ']' :: rest)) =
      some (scope, ']' :: rest) := by
  have hnumber : number 10 UInt32.size none (Nat.toDigits 10 scope ++ ']' :: rest) =
      some (scope, ']' :: rest) :=
    number_toDigits (by decide) (by decide) scope.isLt (by simp) (stops_cons (by decide))
  have hread := (Reader.bind_of_some (f := fun _ => number 10 UInt32.size none)
    (Reader.char_cons '%' (Nat.toDigits 10 scope ++ ']' :: rest))).trans hnumber
  rw [SocketAddress.scope, Reader.or, hread]
  rfl

@[simp] theorem scope_none (rest : List Char) : scope (']' :: rest) = some (0, ']' :: rest) := by
  have hread : (do Reader.char '%'; number 10 UInt32.size none : Reader (Fin UInt32.size))
      (']' :: rest) = none := Reader.bind_of_none (Reader.char_of_head '%' (by simp))
  rw [scope, Reader.or, hread]
  rfl

/-- The zone of an address as it is written. -/
def zone (scope : Fin UInt32.size) : List Char :=
  if scope.val = 0 then [] else '%' :: Nat.toDigits 10 scope

@[simp] theorem toList_text_v6 (x : Ipv6) (scope : Fin UInt32.size) (p : Fin 65536) :
    (v6 x scope p).text.toList =
      '[' :: (x.text.toList ++ (zone scope ++ ']' :: ':' :: Nat.toDigits 10 p)) := by
  by_cases hscope : scope = 0
  · simp [text, zone, hscope, toString]
  · have hval : scope.val ≠ 0 := fun h => hscope (Fin.ext h)
    simp [text, zone, hscope, hval, toString]

@[simp] theorem toList_text_v4 (x : Ipv4) (p : Fin 65536) :
    (v4 x p).text.toList = x.text.toList ++ ':' :: Nat.toDigits 10 p := by
  simp [text, toString]

theorem scope_zone (scope : Fin UInt32.size) (rest : List Char) :
    SocketAddress.scope (zone scope ++ ']' :: rest) = some (scope, ']' :: rest) := by
  by_cases hscope : scope.val = 0
  · obtain rfl : scope = 0 := Fin.ext hscope
    exact scope_none rest
  · rw [zone, if_neg hscope]
    exact scope_digits scope rest

theorem closes_zone (scope : Fin UInt32.size) (rest : List Char) :
    Closes (zone scope ++ ']' :: rest) := by
  rw [zone]
  split
  · exact .bracket rest
  · exact .zone _

/-- The canonical text of an address denotes the address. -/
@[simp] theorem parse?_text (address : SocketAddress) : parse? address.text = some address := by
  have hread : (Reader.or readV4 readV6) address.text.toList = some (address, []) := by
    cases address with
    | v4 x p =>
      have hv4 : readV4 (v4 x p).text.toList = some (v4 x p, []) := by
        rw [toList_text_v4, readV4,
          Reader.bind_of_some (ipv4_text x (stops_cons (by decide))),
          Reader.bind_of_some (port_digits p)]
        rfl
      rw [Reader.or, hv4]
      rfl
    | v6 x scope p =>
      have hv4 : readV4 (v6 x scope p).text.toList = none := by
        rw [toList_text_v6]
        refine Reader.bind_of_none (Reader.bind_of_none ?_)
        rw [byte, number_of_stops (stops_cons (by decide))]
        rfl
      have hv6 : readV6 (v6 x scope p).text.toList = some (v6 x scope p, []) := by
        rw [toList_text_v6, readV6, Reader.bind_of_some (Reader.char_cons '[' _),
          Reader.bind_of_some (x.ipv6_text (closes_zone scope _)),
          Reader.bind_of_some (scope_zone scope _), Reader.bind_of_some (Reader.char_cons ']' _),
          Reader.bind_of_some (port_digits p)]
        rfl
      rw [Reader.or, hv4, hv6]
      rfl
  rw [parse?, Reader.whole?, hread]

end SocketAddress

/-- Two colons stand next to each other somewhere. -/
def HasGap (text : String) : Prop := [':', ':'] <:+: text.toList

/-- No two colons stand next to each other. -/
def Gapless (cs : List Char) : Prop := cs.IsChain fun a b => ¬(a = ':' ∧ b = ':')

theorem Gapless.not_hasGap {text : String} (h : Gapless text.toList) : ¬HasGap text := by
  intro hgap
  have hpair := h.infix hgap
  simp at hpair

theorem gapless_of_not_mem {cs : List Char} (h : ':' ∉ cs) : Gapless cs := by
  refine List.Pairwise.isChain ?_
  rw [List.pairwise_iff_forall_sublist]
  rintro a b hsub ⟨rfl, -⟩
  exact h (hsub.mem List.mem_cons_self)

theorem Gapless.append_colon {cs rest : List Char} (hcs : ':' ∉ cs) (hne : rest.head? ≠ some ':')
    (hrest : Gapless rest) : Gapless (cs ++ ':' :: rest) := by
  refine (gapless_of_not_mem hcs).append ?_ ?_
  · refine List.isChain_cons.2 ⟨fun c hc h => hne ?_, hrest⟩
    rw [← h.2]
    exact hc
  · rintro c hc c' - ⟨rfl, -⟩
    exact hcs (List.mem_of_getLast? hc)

theorem not_mem_toDigits {base n : Nat} (hone : 1 < base) (hbase : base ≤ 16) {c : Char}
    (h : Text.digit? base c = none) : c ∉ Nat.toDigits base n := by
  intro hc
  simpa [h] using Text.digit?_of_mem_toDigits hone hbase hc

namespace Ipv6

theorem gapless_groups (g : Group) (gs : List Group) :
    Gapless (Nat.toDigits 16 g ++ SocketAddress.colons gs) := by
  have hdigits (g : Group) : ':' ∉ Nat.toDigits 16 g :=
    not_mem_toDigits (by decide) (by decide) (by decide)
  induction gs generalizing g with
  | nil => exact gapless_of_not_mem (by simpa [SocketAddress.colons] using hdigits g)
  | cons g' gs ih =>
    rw [SocketAddress.colons_cons]
    refine Gapless.append_colon (hdigits g) ?_ (ih g')
    rw [List.head?_append_of_ne_nil _ Nat.toDigits_ne_nil]
    exact fun h => hdigits g' (List.mem_of_mem_head? h)

theorem not_hasGap_groupsText (gs : List Group) : ¬HasGap (groupsText gs) := by
  cases gs with
  | nil => exact Gapless.not_hasGap (gapless_of_not_mem (by simp [groupsText]))
  | cons g gs =>
    apply Gapless.not_hasGap
    rw [toList_groupsText]
    exact gapless_groups g gs

theorem not_hasGap_textBehind (x : Ipv6) (start : Nat) : ¬HasGap (x.textBehind start) := by
  cases hmapped : x.mapped? with
  | some v4 =>
    have hdigits (n : Nat) : ':' ∉ Nat.toDigits 10 n :=
      not_mem_toDigits (by decide) (by decide) (by decide)
    have hv4 : ':' ∉ v4.text.toList := by simp [hdigits]
    have hgapless : Gapless (['f', 'f', 'f', 'f'] ++ ':' :: v4.text.toList) :=
      Gapless.append_colon (by decide) (fun h => hv4 (List.mem_of_mem_head? h))
        (gapless_of_not_mem hv4)
    apply Gapless.not_hasGap
    simpa [textBehind, hmapped, toString] using hgapless
  | none => simpa [textBehind, hmapped] using not_hasGap_groupsText _

end Ipv6

namespace Config

/-- The canonical text of the address that a configuration denotes denotes the same address, so that
two addresses with the same text are the same; it is what is told of the address, whether it can be
bound or not. In the text of an address of version 6 two colons stand for the first longest run of
zeros if that has two at least, and there are no others. -/
theorem canonical_text_denotes :
    (∀ (c c' : Config) (address : SocketAddress), c.socketAddress = .ok address →
      c'.listenAddr = address.text → c'.socketAddress = .ok address) ∧
    (∀ (c c' : Config) (address address' : SocketAddress), c.socketAddress = .ok address →
      c'.socketAddress = .ok address' → (address.text = address'.text ↔ address = address')) ∧
    (∀ (c : Config) (address : SocketAddress) (hold : SocketAddress → Except String SocketAddress),
      c.socketAddress = .ok address →
      (∀ reason, hold address = .error reason →
        ∃ e, Host.listen hold c = .error e ∧ e.message = s!"failed to bind {address.text}") ∧
      ∀ bound, hold address = .ok bound →
        ∃ event, Host.listen hold c = .ok ⟨[event], bound⟩ ∧
          event.message = "area calculator listening" ∧
          event.fields.lookup "bound_addr" = some (.bare bound.text)) ∧
    ∀ x : Ipv6, ∃ start length, FirstLongestRun x.groups start length ∧
      if 2 ≤ length then
        x.text = s!"{Ipv6.groupsText (x.groups.take start)}::{x.textBehind (start + length)}" ∧
          ¬HasGap (Ipv6.groupsText (x.groups.take start)) ∧
          ¬HasGap (x.textBehind (start + length))
      else x.text = Ipv6.groupsText x.groups ∧ ¬HasGap x.text := by
  refine ⟨fun c c' address _ hc' => ?_, fun c c' address address' _ _ => ⟨fun h => ?_, ?_⟩,
    fun c address hold hc => ⟨fun reason hhold => ?_, fun bound hhold => ?_⟩, fun x => ?_⟩
  · simp [socketAddress, hc']
  · have hread := SocketAddress.parse?_text address
    rw [h, SocketAddress.parse?_text] at hread
    exact (Option.some.inj hread).symm
  · rintro rfl
    rfl
  · refine ⟨.notBound address reason, ?_, rfl⟩
    simp only [Host.listen, hc, Except.mapError, bind, Except.bind, hhold]
  · have hlisten := Host.listen.eq_1 hold c
    simp only [hc, Except.mapError, bind, Except.bind, hhold] at hlisten
    exact ⟨_, hlisten, rfl, rfl⟩
  · have hrun := firstLongestRun_longestZeros x.groups
    refine ⟨_, _, hrun, ?_⟩
    split
    · next htwo =>
      exact ⟨x.text_of_run hrun htwo, Ipv6.not_hasGap_groupsText _, x.not_hasGap_textBehind _⟩
    · next hone =>
      have htext := Ipv6.text_of_no_run hrun (Nat.lt_of_not_le hone)
      rw [htext]
      exact ⟨rfl, Ipv6.not_hasGap_groupsText _⟩

/-- Of two runs of zeros the first is left out, and the zone stays; a place that is taken is told in
the canonical text. -/
theorem canonical_text_denotes_first_of_two :
    let spelled : Config := { listenAddr := "[2001:DB8:0:0:1::0.0.0.1%07]:0080" }
    let canonical : Config := { listenAddr := "[2001:db8::1:0:0:1%7]:80" }
    let unzoned : Config := { listenAddr := "[2001:db8::1:0:0:1]:80" }
    let address := SocketAddress.v6 ⟨[0x2001, 0xdb8, 0, 0, 1, 0, 0, 1], rfl⟩ 7 80
    let address' := SocketAddress.v6 ⟨[0x2001, 0xdb8, 0, 0, 1, 0, 0, 1], rfl⟩ 0 80
    spelled.socketAddress = .ok address ∧ address.text = canonical.listenAddr ∧
      canonical.socketAddress = .ok address ∧
      unzoned.socketAddress = .ok address' ∧ address.text ≠ address'.text ∧
      (∃ e, Host.listen (fun _ => .error "Address already in use") spelled = .error e ∧
        e.message = "failed to bind [2001:db8::1:0:0:1%7]:80") ∧
      ∃ event, Host.listen .ok spelled = .ok ⟨[event], address⟩ ∧
        event.fields.lookup "bound_addr" = some (.bare "[2001:db8::1:0:0:1%7]:80") := by
  intro spelled canonical unzoned address address'
  have hread : spelled.socketAddress = .ok address := by decide +kernel
  have htext : address.text = canonical.listenAddr := by decide +kernel
  obtain ⟨again, same, listens, -⟩ := canonical_text_denotes
  have hagain : canonical.socketAddress = .ok address :=
    again spelled canonical address hread htext.symm
  have hunzoned : unzoned.socketAddress = .ok address' := by decide +kernel
  have hne : address.text ≠ address'.text :=
    mt (same spelled unzoned address address' hread hunzoned).1 (by decide)
  obtain ⟨e, he, hmessage⟩ := (listens spelled address (fun _ => .error _) hread).1 _ rfl
  obtain ⟨event, hevent, -, hbound⟩ := (listens spelled address .ok hread).2 address rfl
  rw [htext] at hmessage hbound
  exact ⟨hread, htext, hagain, hunzoned, hne, ⟨e, he, hmessage⟩, event, hevent, hbound⟩

end Config

end Planimeter
