import Mathlib.Data.List.Sort
import Rkt.Tree.Hash

set_option autoImplicit false

namespace Rkt.TreeHash

open Assoc Code Json

/-- The attributes of the map, each of them once, in the order of their names. -/
structure Header.Lists (hdr : Header) (l : List Xattr) : Prop where
  pairs : (l.map fun x => (x.name, x.value)).Perm hdr.xattrs
  sorted : (l.map Xattr.name).Pairwise (· ≤ ·)

theorem length_xattrs (hdr : Header) :
    (fileInfoFromHeader hdr).xattrs.length = 2 * hdr.xattrs.length := by
  have hlen := (keys_perm hdr).length_eq
  simp only [Header.keys, List.length_map, List.length_append, List.length_replicate] at hlen
  omega

theorem xattrs_eq_of_lookup_eq {h h' : Header} (heq : ∀ k, h.xattrs.lookup k = h'.xattrs.lookup k) :
    (fileInfoFromHeader h).xattrs = (fileInfoFromHeader h').xattrs := by
  have hperm : (h.xattrs.map Prod.fst).Perm (h'.xattrs.map Prod.fst) := by
    rw [List.perm_ext_iff_of_nodup h.nodup h'.nodup]
    intro k
    rw [← not_iff_not, ← lookup_eq_none_iff, ← lookup_eq_none_iff, heq]
  have hkeys : h.keys.Perm h'.keys := by
    have hlen : h.xattrs.length = h'.xattrs.length := by simpa using hperm.length_eq
    rw [Header.keys, Header.keys, hlen]
    exact hperm.append_left _
  have hsorted : h.keys.mergeSort (· ≤ ·) = h'.keys.mergeSort (· ≤ ·) :=
    List.Perm.eq_of_pairwise' (List.pairwise_mergeSort' (· ≤ ·) _)
      (List.pairwise_mergeSort' (· ≤ ·) _)
      (((List.mergeSort_perm _ _).trans hkeys).trans (List.mergeSort_perm _ _).symm)
  have hvalue : h.xattr = h'.xattr := by
    funext k
    rw [Header.xattr, Header.xattr, heq]
  simp only [fileInfoFromHeader, hsorted, hvalue]

/-- **The list is not the one of the map** unless there are no attributes, but it tells the map. -/
theorem xattrs_iff (h h' : Header) :
    (h.Lists (fileInfoFromHeader h).xattrs ↔ h.xattrs = []) ∧
      ((fileInfoFromHeader h).xattrs = (fileInfoFromHeader h').xattrs ↔
        ∀ k, h.xattrs.lookup k = h'.xattrs.lookup k) := by
  have hlen := length_xattrs h
  refine ⟨⟨fun hlists => ?_, fun hnil => ?_⟩, lookup_eq_of_xattrs_eq, xattrs_eq_of_lookup_eq⟩
  · have hsame := hlists.pairs.length_eq
    rw [List.length_map, hlen] at hsame
    exact List.length_eq_zero_iff.mp (by omega)
  · have hempty : (fileInfoFromHeader h).xattrs = [] := by
      rw [← List.length_eq_zero_iff, hlen, hnil]
      rfl
    rw [hempty]
    exact ⟨hnil ▸ List.Perm.nil, List.Pairwise.nil⟩

/-- A file with one attribute. -/
def labelled : Header :=
  { fileInfoHeader ⟨[], .dir, 0, 0, 0, 0, 0, 0⟩ with
    xattrs := [([97], [98])]
    nodup := List.nodup_singleton _ }

theorem labelled_xattrs : (fileInfoFromHeader labelled).xattrs = [⟨[], []⟩, ⟨[97], [98]⟩] := by
  have hkeys : labelled.keys.mergeSort (· ≤ ·) = [[], [97]] :=
    List.mergeSort_of_pairwise (by decide)
  rw [fileInfoFromHeader, hkeys]
  rfl

end Rkt.TreeHash
