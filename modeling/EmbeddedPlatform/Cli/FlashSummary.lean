import Mathlib.Data.List.Basic

/-! # The summary of the flash

`PrintFlashSummary` lists the objects of the key-value store as a tree of the groups
that their keys begin with. The array is what `EnumObjects` returns. A deleted object
is still in it, with no content. -/
namespace EmbeddedPlatform.Cli

/-- An object in the array. -/
structure KVSListEntry where
  key : List Char
  size : Nat
  revs : Nat
deriving DecidableEq

/-- A line of the listing, by its format and what is filled in. -/
inductive Line where
  /-- The name of a group. -/
  | heading (groupname : List Char)
  /-- A node of the tree, `├──` if there is a next one and `└──` if not. -/
  | node (next : Bool) (key : List Char) (size revs : Nat)
  | entry (key : List Char) (size revs : Nat)
  | total (nfound kB hundredths : Nat)
deriving DecidableEq

def strchr (s : List Char) (c : Char) : Option Nat := s.idxOf? c

/-- The body of the loop. `previous` is `list[i-1]` and `following` is `list[i+1]`, if
there is one. A key is compared in a buffer that is padded with zeros, so with a
text that has none it agrees only if it begins with it. -/
def printObject (previous : Option KVSListEntry) (object : KVSListEntry)
    (following : Option KVSListEntry) : List Line :=
  if object.size = 0 then []
  else
    match strchr object.key '.' with
    | some dotpos =>
      let grouplen := dotpos + 1
      let groupname := object.key.take grouplen
      let first := !previous.any fun p => groupname.isPrefixOf p.key
      let next := following.any fun n => groupname.isPrefixOf n.key
      let heading := if first && next then [.heading (groupname.take (grouplen - 1))] else []
      let entry :=
        if next || !first then .node next (object.key.drop grouplen) object.size object.revs
        else .entry object.key object.size object.revs
      heading ++ [entry]
    | none => [.entry object.key object.size object.revs]

def printObjects (previous : Option KVSListEntry) : List KVSListEntry → List Line
  | [] => []
  | object :: rest => printObject previous object rest.head? ++ printObjects (some object) rest

def PrintFlashSummary (list : List KVSListEntry) : List Line :=
  -- what is skipped adds nothing
  let size := list.foldl (fun size object => size + object.size) 0
  printObjects none list ++ [.total list.length (size / 1024) (size % 1024 * 100 / 1024)]

end EmbeddedPlatform.Cli
