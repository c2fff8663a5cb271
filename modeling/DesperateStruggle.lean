import DesperateStruggle.Machine
import DesperateStruggle.Protocol
import DesperateStruggle.Handler
import DesperateStruggle.Server
import DesperateStruggle.Growth
import DesperateStruggle.RoomInvariant
import DesperateStruggle.Seats
import DesperateStruggle.GameLoop
import DesperateStruggle.Threads
import DesperateStruggle.Interleaving
import DesperateStruggle.Client
import DesperateStruggle.System
import DesperateStruggle.TurnAgreement
import DesperateStruggle.WaitingScreen
import DesperateStruggle.Framing
import DesperateStruggle.Requests
import DesperateStruggle.RequestProbes
import DesperateStruggle.Session
import DesperateStruggle.Screens
import DesperateStruggle.Game
import DesperateStruggle.Loading
import DesperateStruggle.Coins
import DesperateStruggle.Turns
import DesperateStruggle.Skipping
import DesperateStruggle.Cylinder
import DesperateStruggle.Health
import DesperateStruggle.Shots
import DesperateStruggle.Items
import DesperateStruggle.ScreenOrder
import DesperateStruggle.Typing
import DesperateStruggle.RoomKeys
import DesperateStruggle.Passwords
import DesperateStruggle.Receiving
import DesperateStruggle.Process
import DesperateStruggle.SocketLife
import DesperateStruggle.Footprint
import DesperateStruggle.Traces
import DesperateStruggle.Locality
import DesperateStruggle.Operations
import DesperateStruggle.Serial
import DesperateStruggle.Projection
import DesperateStruggle.Duel
import DesperateStruggle.Histories
import DesperateStruggle.Asking
import DesperateStruggle.Conversation
import DesperateStruggle.Hearing
import DesperateStruggle.Agreement
import DesperateStruggle.Matching
import DesperateStruggle.Leaving
import DesperateStruggle.Decimal
import DesperateStruggle.Frames
