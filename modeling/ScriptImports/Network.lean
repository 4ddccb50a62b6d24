import ScriptImports.FileTree.Fault

/-!
The network as a table from URLs to replies, with a note of every fetch that was made from it.
-/
namespace ScriptImports

inductive Reply where
  | body (bytes : ByteArray)
  | refused (status : Option Nat) (reason : String)
  /-- The fetch itself breaks down. -/
  | crash (detail : String)

structure Network where
  replies : List (String × Reply)
  /-- The reply where a URL has none of its own. -/
  fallback : Reply
  /-- The URLs that were fetched, the first one first. -/
  fetched : List String
  /-- How a body is read where a text is asked for, or why it cannot be. -/
  text : ByteArray → Except String String

namespace Network

def utf8Text (bytes : ByteArray) : Except String String :=
  match String.fromUTF8? bytes with
  | some text => .ok text
  | none => .error Fault.notText.message

/-- A network that answers, but has nothing. -/
def empty : Network := ⟨[], .refused (some 404) "Not Found", [], utf8Text⟩

def unavailable : Network := ⟨[], .refused none "network access is not available", [], utf8Text⟩

def reply (n : Network) (url : String) : Reply := (n.replies.lookup url).getD n.fallback

def fetch (n : Network) (url : String) : Network × Reply :=
  ({ n with fetched := n.fetched ++ [url] }, n.reply url)

@[simp] theorem reply_fetch (n : Network) (fetched url : String) :
    (n.fetch fetched).1.reply url = n.reply url := rfl

def set (n : Network) (url : String) (reply : Reply) : Network :=
  { n with replies := (url, reply) :: n.replies }

end Network

end ScriptImports
