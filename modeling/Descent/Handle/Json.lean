import Descent.Handle.Library
import Descent.Json.Grammar

namespace Descent.Handle

open Descent.Json

def jsonNumber : Build (Handle Binary64) := ofParser Grammar.number

def jsonBoolean : Build (Handle Bool) := ofParser Grammar.boolean

def jsonString : Build (Handle String) := ofParser Grammar.string

def jsonArray : Build (Handle (List Json)) := ofParser Grammar.array

def jsonObject : Build (Handle (Entries Json)) := ofParser Grammar.object

def jsonValue : Handle Json := marked 0 Grammar.value.run

def jsonDocument : Build (Handle Json) := do (← skipWhitespace).keepRight jsonValue

end Descent.Handle
