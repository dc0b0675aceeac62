import Keyring.Cache.Swept
import Keyring.Ciphertext
import Keyring.CommandLine.Arguments
import Keyring.CommandLine.Paths
import Keyring.Config.Load
import Keyring.Config.Show
import Keyring.Data.FiniteMap
import Keyring.Disk
import Keyring.KeyFile
import Keyring.KeyName
import Keyring.Kms.MasterKeys
import Keyring.Lock.Names
import Keyring.Main
import Keyring.Proofs.Ciphertext.Record
import Keyring.Proofs.Disk.Contents
import Keyring.Proofs.Lock.Names
import Keyring.Proofs.Secret.Record
import Keyring.Proofs.Store.Run
import Keyring.Secret
import Keyring.Store.Open
import Keyring.Store.Step
import Keyring.Trial.Session
import Keyring.Yaml.Document
import Keyring.Yaml.Scalar
import Keyring.Yaml.Scalar.Block
import Keyring.Yaml.Scalar.Plain
import Keyring.Yaml.Scalar.Quoted
import Keyring.Yaml.Token.Lexer
import Keyring.Proofs.Store.Transition
import Keyring.Proofs.Store.Perform
import Keyring.Proofs.Store.Exclusion
import Keyring.Proofs.Store.Records
import Keyring.Proofs.Store.Simulation
import Keyring.Proofs.Store.Linearizable
import Keyring.Proofs.Store.Deletion
import Keyring.Proofs.Store.Agreement
import Keyring.Proofs.Ciphertext.Prefix
import Keyring.Proofs.Store.Creation
import Keyring.Proofs.Store.Coherence
import Keyring.Proofs.Json.Literal
import Keyring.Proofs.Text.Base64
import Keyring.Proofs.Ciphertext.Grammar
import Keyring.Proofs.Ciphertext.RoundTrip
import Keyring.Proofs.Disk.Serving
import Keyring.Proofs.Lock.Served
import Keyring.Proofs.Lock.Objects
import Keyring.Proofs.Lock.Traffic
import Keyring.Proofs.Store.Accepting
import Keyring.Proofs.Store.Alone
import Keyring.Proofs.Cache.Due
import Keyring.Proofs.Store.Sequence
import Keyring.Proofs.Store.Interruption
import Keyring.Proofs.Store.Recovery
import Keyring.Proofs.Disk.Directories
import Keyring.Proofs.Store.Tampering
import Keyring.Proofs.Store.Reading
import Keyring.Proofs.Store.Progress
import Keyring.Proofs.Store.Threads
import Keyring.Proofs.Store.Completion
import Keyring.Proofs.Store.Free
import Keyring.Proofs.Store.Lasting
import Keyring.Proofs.Store.Getting
import Keyring.Proofs.Store.Contest
import Keyring.Proofs.Store.Contention
import Keyring.Proofs.Store.Readback
import Keyring.Proofs.Cache.Schedule
import Keyring.Proofs.Store.Ledger
import Keyring.Proofs.Store.Logging
import Keyring.Proofs.Store.Turns
import Keyring.Proofs.Store.Staleness
import Keyring.Proofs.Store.Expiry
import Keyring.Proofs.Disk.Alike
import Keyring.Proofs.Cache.Alike
import Keyring.Proofs.Store.Drafts
import Keyring.Proofs.Kms.Discreet
import Keyring.Proofs.Store.Alike
import Keyring.Proofs.Store.SideBySide
import Keyring.Proofs.Store.Noting
import Keyring.Proofs.Store.Abreast
import Keyring.Proofs.Store.Discretion
import Keyring.Proofs.Cache.Course
import Keyring.Proofs.Cache.Punctual
import Keyring.Proofs.Store.Usage
import Keyring.Proofs.Store.Refetch
import Keyring.Proofs.Store.Disuse
import Keyring.Proofs.Store.InUse
import Keyring.Proofs.Store.AtOnce
import Keyring.Proofs.Store.Opening
import Keyring.Proofs.CommandLine.Processes
import Keyring.Proofs.Cipher.Aead
import Keyring.Proofs.Kms.Decryption
import Keyring.Proofs.Secret.Parsing
import Keyring.Proofs.Store.ReadLimit
import Keyring.Proofs.Store.Failure
import Keyring.Proofs.Disk.Locality
import Keyring.Proofs.Store.OwnFile
import Keyring.Proofs.Store.Footprint
import Keyring.Proofs.Ciphertext.Distinct
import Keyring.Proofs.Store.Formats
import Keyring.Proofs.Text.Digits
import Keyring.Proofs.Config.Fields
import Keyring.Proofs.Config.Precedence
import Keyring.Proofs.Disk.Files
import Keyring.Proofs.KeyFile.Format
import Keyring.Proofs.KeyFile.Generation
import Keyring.Proofs.KeyFile.Loading
import Keyring.Proofs.Disk.Destination
import Keyring.Proofs.KeyFile.Effects
import Keyring.Proofs.KeyFile.Makings
import Keyring.Proofs.Cache.Ticks
import Keyring.Proofs.Store.Lifetime
import Keyring.Proofs.Text.Lossy
import Keyring.Proofs.Yaml.Character
import Keyring.Proofs.Yaml.Plain
import Keyring.Proofs.Yaml.Quoted
import Keyring.Proofs.Yaml.Block
import Keyring.Proofs.Yaml.Printable
import Keyring.Proofs.Yaml.Lexing
import Keyring.Proofs.Yaml.Number
import Keyring.Proofs.Config.Sections
import Keyring.Proofs.Config.Shown
